import SqlTree.Proofs.Decimal.Doubles
import SqlTree.Proofs.Legible.Expr

set_option autoImplicit false

/-!
# What has been scanned can be written

The values of the tokens of a source can be written again: doubles have no sign and are numbers, the
names of variables are names, and Dart code holds no backtick. The text of a keyword is that of the
keyword, and a name without quotes is not.

## Main definitions

* `SqlTree.TokenKind.IsWritten`, `SqlTree.Token.IsWritten` — a token can be written again.
* `SqlTree.Token.isQuoted` — the token is a name in quotes.

## Main results

* `SqlTree.scanToken_isWritten` — whatever is scanned can be written again.
* `SqlTree.tokenize_isWritten` — so can the tokens of a source.
-/

namespace SqlTree

/-! ## Doubles -/

namespace Decimal

open Float.Model in
/-- The bits of a number without a sign are kept in a double. -/
lemma toBits_ofBits {bits : Nat} (plain : bits ≤ infinityBits) :
    (Float.ofBits (UInt64.ofNat bits)).toBits.toNat = bits := by
  have range : bits < 2 ^ 64 := Nat.lt_of_le_of_lt plain (by decide)
  have word : (BitVec.ofNat 64 bits).toNat = bits := by
    rw [BitVec.toNat_ofNat, Nat.mod_eq_of_lt range]
  -- a full exponent is that of infinity, which has no mantissa
  have number : ¬ @UnpackedFloat.isNaNBits .binary64 (BitVec.ofNat 64 bits) = true := by
    intro isNaN
    simp only [UnpackedFloat.isNaNBits, decide_eq_true_eq] at isNaN
    obtain ⟨full, some⟩ := isNaN
    apply some
    rw [UnpackedFloat.unpackExponent_def] at full
    rw [UnpackedFloat.unpackMantissa_def]
    have full := congrArg BitVec.toNat full
    apply BitVec.eq_of_toNat_eq
    rw [BitVec.extractLsb'_toNat, word, Nat.shiftRight_eq_div_pow] at full ⊢
    change bits / 2 ^ 52 % 2 ^ 11 = 2047 at full
    change bits / 2 ^ 0 % 2 ^ 52 = 0
    unfold infinityBits at plain
    omega
  change (UnpackedFloat.pack .binary64
    (UnpackedFloat.unpack .binary64 (BitVec.ofNat 64 bits))).toNat = bits
  rw [UnpackedFloat.pack_unpack, if_neg number, word]

/-- The double of a numeral is finite or infinite, and not negative. -/
lemma bits_le (numeral : Numeral) : numeral.bits ≤ infinityBits := by
  unfold Numeral.bits
  split
  · exact Nat.zero_le _
  · split
    · exact Nat.le_refl _
    · unfold nearestDouble
      split
      · exact Nat.zero_le _
      · exact Nat.min_le_right _ _

end Decimal

/-! ## The kinds of scanned tokens -/

/-- The characters that stand before names in quotes. -/
def nameQuotes : List Char :=
  ['"', '[', '\x60']

/-- The token is a name in quotes. -/
def Token.isQuoted (token : Token) : Bool :=
  match token.kind with
  | .identifier _ => startsWith nameQuotes.contains token.lexeme.toList
  | _ => false

/-- A token of this kind, with this text, can be written again. -/
def TokenKind.IsWritten (drift : Bool) (text : List Char) : TokenKind → Prop
  | .float number => number.toBits.toNat ≤ Decimal.infinityBits
  | .variable which => which.IsWritten
  | .inlineDart code => IsDart drift code
  | .keyword word => Keyword.ofText? (String.ofList text) = some word
  | .identifier name => startsWith nameQuotes.contains text = true ∨ Keyword.ofText? name = none
  | _ => True

section

variable {drift : Bool} {text rest : List Char} {first : Char}

/-- A decimal number can be written. -/
lemma scanDecimal_isWritten (chars : List Char) : (scanDecimal chars).1.IsWritten drift text := by
  unfold scanDecimal
  dsimp only
  split_ifs
  · trivial
  · trivial
  · trivial
  · change (Float.toBits _).toNat ≤ _
    cases Decimal.Numeral.ofChars? _ with
    | none => exact Nat.le_of_ble_eq_true rfl
    | some numeral =>
      exact (Decimal.toBits_ofBits (Decimal.bits_le numeral)).trans_le (Decimal.bits_le numeral)

/-- A hexadecimal number can be written. -/
lemma scanHex_isWritten (chars : List Char) : (scanHex chars).1.IsWritten drift text := by
  unfold scanHex
  dsimp only
  split_ifs <;> trivial

/-- A number can be written. -/
lemma scanNumber_isWritten : (scanNumber first rest).kind.IsWritten drift text := by
  unfold scanNumber
  dsimp only
  split
  · split_ifs
    · exact scanHex_isWritten _
    · exact scanDecimal_isWritten _
  · exact scanDecimal_isWritten _

/-- A word is a keyword if its text is that of one, and a name otherwise. -/
lemma scanWord_isWritten : (scanWord first rest).kind.IsWritten drift
    (first :: rest.take (scanWord first rest).tail) := by
  have taken : rest.take (rest.takeWhile isIdentifierChar).length =
      rest.takeWhile isIdentifierChar :=
    (List.prefix_iff_eq_take.mp (List.takeWhile_prefix _)).symm
  unfold scanWord
  dsimp only
  split
  · next word found =>
    change Keyword.ofText? _ = some word
    rw [taken, found]
  · next none => exact .inr none

/-- Any other token can be written. -/
lemma scanOther_isWritten : (scanToken.scanOther first rest).kind.IsWritten drift
    (first :: rest.take (scanToken.scanOther first rest).tail) := by
  unfold scanToken.scanOther
  split_ifs
  · exact scanNumber_isWritten
  · exact scanWord_isWritten
  · trivial

/-- A quoted token can be written, if its value can. -/
lemma scanQuotedToken_isWritten {close : Char} {doubling : Bool} {error : LexicalError}
    {make : List Char → TokenKind}
    (made : ∀ value count, scanQuoted close doubling rest = some (value, count) →
      (make value).IsWritten drift text) :
    (scanQuotedToken close doubling error make rest).kind.IsWritten drift text := by
  unfold scanQuotedToken
  split
  · next scan => exact made _ _ scan
  · trivial

/-- Without doubling, the text up to a closing mark does not hold the mark. -/
lemma scanQuoted_notMem {close : Char} {value : List Char} {count : Nat}
    (scan : scanQuoted close false rest = some (value, count)) : close ∉ value := by
  induction rest generalizing value count with
  | nil => simp [scanQuoted] at scan
  | cons c rest ih =>
    unfold scanQuoted at scan
    split at scan
    · split at scan
      · simp only [Bool.false_and, Bool.false_eq_true, if_false, Option.some.injEq,
          Prod.mk.injEq] at scan
        simp [← scan.1]
      · simp only [Option.some.injEq, Prod.mk.injEq] at scan
        simp [← scan.1]
    · next other =>
      obtain ⟨⟨value', count'⟩, scan', eq⟩ := Option.map_eq_some_iff.mp scan
      obtain rfl : c :: value' = value := congrArg Prod.fst eq
      simpa using ⟨fun same => other same.symm, ih scan'⟩

/-- A blob can be written. -/
lemma blobKind_isWritten (digits : List Char) : (blobKind digits).IsWritten drift text := by
  unfold blobKind
  split_ifs <;> trivial

/-- A named variable can be written, if its sigil alone can. -/
lemma scanNamed_isWritten {sigil : Sigil} {alone : TokenKind} (other : alone.IsWritten drift text) :
    (scanNamed sigil alone rest).kind.IsWritten drift text := by
  unfold scanNamed
  dsimp only
  split_ifs with empty
  · exact other
  · refine ⟨by simpa using empty, fun c mem => ?_⟩
    rw [String.toList_ofList] at mem
    exact List.mem_takeWhile_imp mem

/-- A variable with a question mark can be written, as its number is in range. -/
lemma scanQuestion_isWritten : (scanQuestion rest).kind.IsWritten drift text := by
  unfold scanQuestion
  dsimp only
  split_ifs with _ fits
  · trivial
  · rw [Bool.and_eq_true, decide_eq_true_eq, decide_eq_true_eq] at fits
    exact fits
  · trivial

/-- **Whatever is scanned can be written again.**

**Proof sketch.** By the first character, in the order in which the scanner looks at it. Numbers,
variables and quoted tokens have their own lemmas; a name in quotes can be written because of its
quotes, and Dart code because its text holds no backtick. Symbols hold no value. -/
lemma scanToken_isWritten : (scanToken drift first rest).kind.IsWritten drift
    (first :: rest.take (scanToken drift first rest).tail) := by
  have quoted (list : List Char) (mark : Char) (isQuote : nameQuotes.contains mark = true)
      (name : String) :
      (TokenKind.identifier name).IsWritten drift (mark :: list) := .inl isQuote
  unfold scanToken
  dsimp only
  split
  case h_10 => split_ifs <;> trivial
  case h_27 =>
    split_ifs
    · exact scanNumber_isWritten
    · trivial
  case h_28 => exact scanQuestion_isWritten
  case h_29 | h_30 | h_31 => exact scanNamed_isWritten trivial
  case h_32 => exact scanQuotedToken_isWritten fun _ _ _ => trivial
  case h_33 | h_34 => exact scanQuotedToken_isWritten fun _ _ _ => quoted _ _ rfl _
  case h_35 =>
    split_ifs with drift
    · refine scanQuotedToken_isWritten fun value count scan => ⟨drift, ?_⟩
      rw [String.toList_ofList]
      exact scanQuoted_notMem scan
    · exact scanQuotedToken_isWritten fun _ _ _ => quoted _ _ rfl _
  case h_36 =>
    split_ifs
    · exact scanQuotedToken_isWritten fun _ _ _ => blobKind_isWritten _
    · exact scanOther_isWritten
  case h_37 => exact scanOther_isWritten
  -- the others are symbols
  all_goals trivial

end

/-! ## The tokens of a source -/

/-- The next token can be written. -/
lemma Scanner.next_isWritten (scanner : Scanner) :
    scanner.next.1.kind.IsWritten scanner.drift scanner.next.1.lexeme.toList := by
  unfold next
  dsimp only
  split
  · trivial
  · rw [String.toList_ofList]
    exact scanToken_isWritten

/-- Every token that is scanned can be written. -/
lemma Scanner.tokensWithin_isWritten {scanner : Scanner} {fuel : Nat} {token : Token}
    (mem : token ∈ (scanner.tokensWithin fuel).1) :
    token.kind.IsWritten scanner.drift token.lexeme.toList := by
  obtain ⟨later, same, rfl⟩ := exists_next_of_mem mem
  rw [← same]
  exact later.next_isWritten

/-- The token can be written again. -/
def Token.IsWritten (drift : Bool) (token : Token) : Prop :=
  token.kind.IsWritten drift token.lexeme.toList

/-- **The tokens of a source can be written again.** -/
lemma tokenize_isWritten {drift : Bool} {source : String} {token : Token}
    (mem : token ∈ tokenize drift source) : token.IsWritten drift :=
  Scanner.tokensWithin_isWritten mem

end SqlTree
