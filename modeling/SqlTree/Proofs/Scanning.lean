import Mathlib.Tactic.Lemma
import Mathlib.Tactic.SplitIfs
import SqlTree.Token.Lexer

set_option autoImplicit false

/-!
# The kinds of scanned tokens

A piece of text is never scanned as the end of input, and two asterisks are scanned as one symbol
only with the drift extensions.

## Main definitions

* `SqlTree.TokenKind.IsScanned` — a kind that a piece of text can have.

## Main results

* `SqlTree.scanToken_isScanned` — pieces of text have such kinds.
* `SqlTree.tokenize_doubleStar` — two asterisks as one symbol in the tokens of a source.
-/

namespace SqlTree

/-- The kind can be that of a piece of text. -/
structure TokenKind.IsScanned (drift : Bool) (kind : TokenKind) : Prop where
  notEnd : kind ≠ .endOfInput
  doubleStar : kind = .symbol .doubleStar → drift = true

namespace TokenKind.IsScanned

variable {drift : Bool}

/-- A kind that is neither a symbol nor the end of input is fine with and without the extensions. -/
lemma of_ne {kind : TokenKind} (notEnd : kind ≠ .endOfInput)
    (notSymbol : ∀ which, kind ≠ .symbol which) : kind.IsScanned drift :=
  ⟨notEnd, fun eq => absurd eq (notSymbol _)⟩

/-- Malformed tokens are scanned. -/
lemma malformed (error : LexicalError) : (TokenKind.malformed error).IsScanned drift :=
  of_ne (by simp) (by simp)

/-- Every symbol is scanned but the doubled star. -/
lemma symbol {which : Symbol} (single : which ≠ .doubleStar) :
    (TokenKind.symbol which).IsScanned drift :=
  ⟨by simp, by simpa using fun eq => absurd eq single⟩

end TokenKind.IsScanned

section

variable {drift : Bool} {first : Char} {rest : List Char}

/-- A decimal number is of a scanned kind. -/
lemma scanDecimal_isScanned (chars : List Char) : (scanDecimal chars).1.IsScanned drift := by
  unfold scanDecimal
  dsimp only
  split_ifs
  · exact .malformed _
  · exact .malformed _
  · exact .of_ne (by simp) (by simp)
  · exact .of_ne (by simp) (by simp)

/-- A hexadecimal number is of a scanned kind. -/
lemma scanHex_isScanned (chars : List Char) : (scanHex chars).1.IsScanned drift := by
  unfold scanHex
  dsimp only
  split_ifs
  · exact .malformed _
  · exact .malformed _
  · exact .of_ne (by simp) (by simp)
  · exact .malformed _

/-- A number is of a scanned kind. -/
lemma scanNumber_isScanned : (scanNumber first rest).kind.IsScanned drift := by
  unfold scanNumber
  dsimp only
  split
  · split_ifs
    · exact scanHex_isScanned _
    · exact scanDecimal_isScanned _
  · exact scanDecimal_isScanned _

/-- A word is of a scanned kind. -/
lemma scanWord_isScanned : (scanWord first rest).kind.IsScanned drift := by
  unfold scanWord
  dsimp only
  split <;> exact .of_ne (by simp) (by simp)

/-- Any other token is of a scanned kind. -/
lemma scanOther_isScanned : (scanToken.scanOther first rest).kind.IsScanned drift := by
  unfold scanToken.scanOther
  split_ifs
  · exact scanNumber_isScanned
  · exact scanWord_isScanned
  · exact .malformed _

/-- A quoted token is of a scanned kind, if its value is. -/
lemma scanQuotedToken_isScanned {close : Char} {doubling : Bool} {error : LexicalError}
    {make : List Char → TokenKind} (made : ∀ value, (make value).IsScanned drift) :
    (scanQuotedToken close doubling error make rest).kind.IsScanned drift := by
  unfold scanQuotedToken
  split
  · exact made _
  · exact .malformed _

/-- A blob is of a scanned kind. -/
lemma blobKind_isScanned (digits : List Char) : (blobKind digits).IsScanned drift := by
  unfold blobKind
  split_ifs
  · exact .malformed _
  · exact .malformed _
  · exact .of_ne (by simp) (by simp)

/-- A named variable is of a scanned kind, if its sigil alone is. -/
lemma scanNamed_isScanned {sigil : Sigil} {alone : TokenKind} (other : alone.IsScanned drift) :
    (scanNamed sigil alone rest).kind.IsScanned drift := by
  unfold scanNamed
  dsimp only
  split_ifs
  · exact other
  · exact .of_ne (by simp) (by simp)

/-- A variable with a question mark is of a scanned kind. -/
lemma scanQuestion_isScanned : (scanQuestion rest).kind.IsScanned drift := by
  unfold scanQuestion
  dsimp only
  split_ifs
  · exact .of_ne (by simp) (by simp)
  · exact .of_ne (by simp) (by simp)
  · exact .malformed _

/-- The kind of a piece of text is never the end of input, and is two asterisks only with the drift
extensions. -/
lemma scanToken_isScanned : (scanToken drift first rest).kind.IsScanned drift := by
  unfold scanToken
  dsimp only
  split
  case h_10 =>
    split_ifs
    · exact ⟨by simp, fun _ => ‹_›⟩
    · exact .symbol (by decide)
  case h_27 =>
    split_ifs
    · exact scanNumber_isScanned
    · exact .symbol (by decide)
  case h_28 => exact scanQuestion_isScanned
  case h_29 => exact scanNamed_isScanned (.symbol (by decide))
  case h_30 | h_31 => exact scanNamed_isScanned (.malformed _)
  case h_32 | h_33 | h_34 =>
    exact scanQuotedToken_isScanned fun _ => .of_ne (by simp) (by simp)
  case h_35 =>
    split_ifs <;> exact scanQuotedToken_isScanned fun _ => .of_ne (by simp) (by simp)
  case h_36 =>
    split_ifs
    · exact scanQuotedToken_isScanned blobKind_isScanned
    · exact scanOther_isScanned
  case h_37 => exact scanOther_isScanned
  -- the others are symbols of their own
  all_goals exact .symbol (by decide)

end

/-! ## The tokens of a source -/

namespace Scanner

/-- Scanning goes on with the drift extensions as it started. -/
lemma next_drift (scanner : Scanner) : scanner.next.2.drift = scanner.drift := by
  unfold next
  dsimp only
  split <;> rfl

/-- Every token that is scanned is the next one somewhere. So what holds of every next token holds
of all tokens. -/
lemma exists_next_of_mem {scanner : Scanner} {fuel : Nat} {token : Token}
    (mem : token ∈ (scanner.tokensWithin fuel).1) :
    ∃ later : Scanner, later.drift = scanner.drift ∧ token = later.next.1 := by
  induction fuel generalizing scanner with
  | zero => simp [tokensWithin] at mem
  | succ fuel ih =>
    unfold tokensWithin at mem
    dsimp only at mem
    split at mem
    · exact ⟨scanner, rfl, List.mem_singleton.mp mem⟩
    · rcases List.mem_cons.mp mem with rfl | mem
      · exact ⟨scanner, rfl, rfl⟩
      · obtain ⟨later, same, eq⟩ := ih mem
        exact ⟨later, same.trans (next_drift scanner), eq⟩

/-- The next token is a doubled star only where the drift extensions are scanned. -/
lemma next_doubleStar {scanner : Scanner} (doubled : scanner.next.1.kind = .symbol .doubleStar) :
    scanner.drift = true := by
  unfold next at doubled
  dsimp only at doubled
  split at doubled
  · simp at doubled
  · exact scanToken_isScanned.doubleStar doubled

/-- A doubled star among the tokens shows that the drift extensions are scanned. -/
lemma tokensWithin_doubleStar {scanner : Scanner} {fuel : Nat} {token : Token}
    (mem : token ∈ (scanner.tokensWithin fuel).1) (doubled : token.kind = .symbol .doubleStar) :
    scanner.drift = true := by
  obtain ⟨later, same, rfl⟩ := exists_next_of_mem mem
  rw [← same]
  exact next_doubleStar doubled

end Scanner

/-- Two asterisks are one symbol of a source only if the drift extensions are read. -/
lemma tokenize_doubleStar {drift : Bool} {source : String} {token : Token}
    (mem : token ∈ tokenize drift source) (doubled : token.kind = .symbol .doubleStar) :
    drift = true :=
  Scanner.tokensWithin_doubleStar mem doubled

end SqlTree
