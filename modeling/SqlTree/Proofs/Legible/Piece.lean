import SqlTree.Proofs.Legible

set_option autoImplicit false

/-!
# Pieces are scanned into their words

## Main results

* `SqlTree.Render.legible_name`, `SqlTree.Render.legible_functionName`,
  `SqlTree.Render.legible_keyword` — names and keywords, bare or in quotes.
* `SqlTree.Render.Trailing.parens`, `SqlTree.Render.Legible.commas` — pieces between parentheses and
  with commas between them.
-/

namespace SqlTree

/-- A name or a keyword ends before the character, whether it is in quotes or not. -/
structure EndsName (c : Char) : Prop where
  word : isIdentifierChar c = false
  quote : c ≠ '\'' ∧ c ≠ '"'

/-- A character that goes on with no token ends a name. -/
lemma Inert.endsName {c : Char} (inert : Inert c) : EndsName c :=
  ⟨inert.word, by
    have mark := inert.mark
    constructor <;> rintro rfl <;> simp at mark⟩

/-- A name or a keyword starts with the character, whether it is in quotes or not. -/
def StartsName (c : Char) : Prop :=
  isIdentifierStart c = true ∨ c = '"'

/-- The kind of the token that bare letters are. -/
def TokenKind.ofWord (text : String) : TokenKind :=
  match Keyword.ofText? text with
  | some word => .keyword word
  | none => .identifier text

/-! ## Keywords -/

namespace Keyword

/-- The keywords are listed in the order of their texts, so each is found by its own. -/
lemma texts_ascending : (all.map text).IsChain (· < ·) := by decide +kernel

/-- The list of keywords is complete. -/
lemma mem_all (word : Keyword) : word ∈ all := by
  have found : all[word.ctorIdx]? = some word := by cases word <;> rfl
  exact List.mem_of_getElem? found

/-- The codes of letters. -/
lemma range_of_isAlpha {c : Char} (letter : c.isAlpha = true) :
    (65 ≤ c.toNat ∧ c.toNat ≤ 90) ∨ (97 ≤ c.toNat ∧ c.toNat ≤ 122) := by
  delta Char.isAlpha Char.isUpper Char.isLower at letter
  simp only [Bool.or_eq_true, Bool.and_eq_true, decide_eq_true_eq, ge_iff_le,
    UInt32.le_iff_toNat_le] at letter
  exact letter

/-- A letter in either case starts a name. -/
lemma start_of_toUpper {c : Char} (upper : c.toUpper.isUpper = true ∨ c.toUpper = '_') :
    isIdentifierStart c = true := by
  have letter : c = '_' ∨ c.isAlpha = true := by
    unfold Char.toUpper at upper
    split at upper
    · next lower =>
      have isLower : c.isLower = true := by
        delta Char.isLower
        rw [Bool.and_eq_true, decide_eq_true_eq, decide_eq_true_eq]
        exact lower
      exact .inr (Bool.or_eq_true_iff.mpr (.inr isLower))
    · rcases upper with upper | rfl
      · exact .inr (Bool.or_eq_true_iff.mpr (.inl upper))
      · exact .inl rfl
  rcases letter with rfl | letter
  · rfl
  · have ascii : c.toNat < 0x80 := by
      have range := range_of_isAlpha letter
      omega
    simp [isIdentifierStart, Text.isAlphabetic, ascii, letter]

/-- Keywords are spelled with capital letters and underscores, which is checked one by one. -/
lemma all_upper : (all.all fun word => !word.text.toList.isEmpty &&
    word.text.toList.all fun c => c.isUpper || c == '_') = true := by
  decide +kernel

/-- A keyword is spelled with capital letters and underscores, and with at least one of them. -/
lemma chars_text (word : Keyword) :
    word.text.toList ≠ [] ∧ ∀ c ∈ word.text.toList, c.isUpper = true ∨ c = '_' := by
  have upper := List.all_eq_true.mp all_upper word word.mem_all
  simp only [Bool.and_eq_true, Bool.not_eq_true', List.isEmpty_eq_false_iff, List.all_eq_true,
    Bool.or_eq_true, beq_iff_eq] at upper
  exact upper

/-- Capital letters and underscores are capital already. -/
lemma toUpper_of_upper {c : Char} (upper : c.isUpper = true ∨ c = '_') : c.toUpper = c := by
  unfold Char.toUpper
  rw [dif_neg]
  rintro ⟨low, -⟩
  rcases upper with upper | rfl
  · delta Char.isUpper at upper
    simp only [decide_eq_true_eq, ge_iff_le, UInt32.le_iff_toNat_le] at upper low
    have := upper.2
    simp at this low
    omega
  · exact absurd low (by decide)

/-- The spelling of a keyword is looked up as the keyword. -/
lemma ofText?_text (word : Keyword) : ofText? word.text = some word := by
  have upper : String.ofList (word.text.toList.map Char.toUpper) = word.text := by
    rw [List.map_congr_left (g := id)]
    · rw [List.map_id, String.ofList_toList]
    · exact fun c mem => toUpper_of_upper ((chars_text word).2 c mem)
  unfold ofText?
  rw [upper]
  dsimp only
  obtain ⟨before, after, split⟩ := List.append_of_mem word.mem_all
  rw [List.find?_eq_some_iff_append]
  refine ⟨by simp, before, after, split, fun other mem => ?_⟩
  have ascending := List.isChain_iff_pairwise.mp texts_ascending
  rw [split, List.map_append, List.map_cons, List.pairwise_append] at ascending
  have lt := ascending.2.2 other.text (List.mem_map_of_mem mem) word.text List.mem_cons_self
  simp only [Bool.not_eq_eq_eq_not, Bool.not_true, beq_eq_false_iff_ne]
  exact fun eq => absurd (eq ▸ lt) (String.lt_irrefl _)

/-- What spells a keyword consists of letters. -/
lemma starts_of_ofText? {name : String} {word : Keyword} (found : ofText? name = some word) :
    name.toList ≠ [] ∧ ∀ c ∈ name.toList, isIdentifierStart c = true := by
  have eq : name.toList.map Char.toUpper = word.text.toList := by
    have := List.find?_some found
    rw [beq_iff_eq] at this
    rw [this, String.toList_ofList]
  obtain ⟨nonempty, upper⟩ := chars_text word
  refine ⟨fun empty => nonempty (by rw [← eq, empty]; rfl), fun c mem => ?_⟩
  have := upper c.toUpper (eq ▸ List.mem_map_of_mem mem)
  exact start_of_toUpper this

end Keyword

/-! ## Words of letters -/

section

variable {drift : Bool} {first : Char} {tail rest : List Char}

/-- A character of a word starts no blanks and no comment. -/
lemma gapLength_of_char (char : isIdentifierChar first = true) :
    gapLength (first :: tail) = 0 := by
  rw [gapLength_eq_zero_iff]
  refine ⟨?_, ?_, ?_⟩
  · rw [← Bool.not_eq_true]
    intro blank
    exact absurd ((inert_of_blank blank).word.symm.trans char) Bool.false_ne_true
  · rintro ⟨rfl, -⟩
    exact absurd char (by decide)
  · rintro ⟨rfl, -⟩
    exact absurd char (by decide)

/-- A run of characters ends where the character after it fails the test. -/
lemma takeWhile_append_of_ends {test : Char → Bool} (all : ∀ c ∈ tail, test c = true)
    (ends : ∀ c ∈ rest.head?, test c = false) : (tail ++ rest).takeWhile test = tail := by
  rw [List.takeWhile_append_of_pos all]
  cases rest with
  | nil => simp
  | cons c rest => simp [ends c rfl]

/-- A character of a word is no symbol. -/
lemma single_of_char (char : isIdentifierChar first = true) : single first = none := by
  unfold single
  split <;> first | rfl | exact absurd char (by decide)

/-- A character that starts a word is none of the marks that start other tokens. -/
lemma not_mark_of_start (start : isIdentifierStart first = true) : first ∉ marks := by
  intro mem
  unfold marks at mem
  simp only [List.mem_cons, List.not_mem_nil, or_false] at mem
  rcases mem with rfl | rfl | rfl | rfl | rfl | rfl | rfl | rfl | rfl | rfl <;>
    exact absurd start (by decide)

/-- A character that starts a word is no digit. -/
lemma not_digit_of_start (start : isIdentifierStart first = true) : first.isDigit = false := by
  rw [← Bool.not_eq_true]
  intro digit
  have range : 48 ≤ first.val.toNat ∧ first.val.toNat ≤ 57 := by
    simp only [Char.isDigit, Bool.and_eq_true, decide_eq_true_eq, ge_iff_le,
      UInt32.le_iff_toNat_le] at digit
    exact digit
  have ascii : first.toNat < 0x80 := by
    change first.val.toNat < 0x80
    omega
  unfold isIdentifierStart Text.isAlphabetic at start
  rw [if_pos ascii, Bool.or_eq_true, beq_iff_eq] at start
  rcases start with letter | rfl
  · have letters := Keyword.range_of_isAlpha letter
    change (65 ≤ first.val.toNat ∧ first.val.toNat ≤ 90) ∨
      (97 ≤ first.val.toNat ∧ first.val.toNat ≤ 122) at letters
    omega
  · exact absurd digit (by decide)

/-- A character that starts a name is no digit. -/
lemma StartsName.not_digit (starts : StartsName first) : first.isDigit = false := by
  rcases starts with start | rfl
  · exact not_digit_of_start start
  · rfl

/-- A word of letters is scanned up to its end. -/
lemma scanToken_word (start : isIdentifierStart first = true)
    (all : ∀ c ∈ tail, isIdentifierChar c = true) (ends : ∀ c ∈ rest.head?, EndsName c) :
    scanToken drift first (tail ++ rest) =
      ⟨.ofWord (String.ofList (first :: tail)), tail.length⟩ := by
  have char := isIdentifierChar_of_start start
  have noQuote : (tail ++ rest).head? ≠ some '\'' := by
    cases tail with
    | nil => exact fun head => (ends _ head).quote.1 rfl
    | cons c tail =>
      intro head
      obtain rfl := Option.some.inj head
      exact absurd (all _ List.mem_cons_self) (by decide)
  rw [scanToken_plain _ (single_of_char char) (not_mark_of_start start), scanPlain,
    if_neg (fun both => noQuote both.2), scanToken.scanOther, not_digit_of_start start, start,
    if_neg Bool.false_ne_true, if_pos rfl, scanWord,
    takeWhile_append_of_ends all fun c head => (ends c head).word]
  unfold TokenKind.ofWord
  cases Keyword.ofText? (String.ofList (first :: tail)) <;> rfl

end

/-! ## Text in quotes -/

/-- Text in quotes is read up to the closing quote. -/
lemma scanQuoted_quoted {quote : Char} (chars : List Char) {rest : List Char}
    (ends : rest.head? ≠ some quote) :
    scanQuoted quote true
        ((chars.flatMap fun c => if c = quote then [quote, quote] else [c]) ++ quote :: rest) =
      some (chars,
        (chars.flatMap fun c => if c = quote then [quote, quote] else [c]).length + 1) := by
  induction chars with
  | nil => exact scanQuoted_closes fun _ => ends
  | cons c chars ih =>
    rw [List.flatMap_cons]
    by_cases same : c = quote
    · subst same
      rw [if_pos rfl, List.append_assoc, List.cons_append, List.cons_append, List.nil_append,
        scanQuoted_doubled, ih, List.length_append]
      simp [Nat.add_comm, Nat.add_left_comm]
    · rw [if_neg same, List.append_assoc, List.singleton_append, scanQuoted_inside same, ih,
        List.length_append]
      simp [Nat.add_comm]

/-- A token in quotes is read up to the closing quote. -/
lemma scanQuotedToken_quoted {quote : Char} (make : List Char → TokenKind) (error : LexicalError)
    (chars : List Char) {rest : List Char} (ends : rest.head? ≠ some quote) :
    scanQuotedToken quote true error make ((Text.quoted quote chars).tail ++ rest) =
      ⟨make chars, (Text.quoted quote chars).tail.length⟩ := by
  unfold scanQuotedToken Text.quoted
  rw [List.cons_append, List.tail_cons, List.append_assoc, List.singleton_append,
    scanQuoted_quoted chars ends]
  simp

/-! ## Single pieces -/

namespace Render

variable {drift : Bool} {next : Char → Prop} {pieces others : List Piece}

/-- The text of a name starts like a name. -/
lemma head_nameText (written : String) :
    ∃ first tail, (nameText written).toList = first :: tail ∧ StartsName first := by
  unfold nameText
  split
  · next plain =>
    unfold isPlainName at plain
    split at plain
    · exact absurd plain Bool.false_ne_true
    · next first tail toList =>
      simp only [Bool.and_eq_true] at plain
      exact ⟨first, tail, toList, .inl plain.1.1⟩
  · rw [String.toList_ofList]
    exact ⟨'"', _, rfl, .inr rfl⟩

/-- A name that is a keyword starts like a name. -/
lemma head_keyword {written : String} {word : Keyword}
    (found : Keyword.ofText? written = some word) :
    ∃ first tail, written.toList = first :: tail ∧ StartsName first := by
  obtain ⟨nonempty, starts⟩ := Keyword.starts_of_ofText? found
  obtain ⟨first, tail, toList⟩ := List.exists_cons_of_ne_nil nonempty
  exact ⟨first, tail, toList, .inl (starts _ (toList ▸ List.mem_cons_self))⟩

/-- The text of the name of a function starts like a name. -/
lemma head_functionNameText (written : String) :
    ∃ first tail, (functionNameText written).toList = first :: tail ∧ StartsName first := by
  unfold functionNameText
  split
  · next found =>
    split
    · exact head_keyword found
    · exact head_nameText written
  · exact head_nameText written

/-- A piece that is one token. -/
lemma legible_of_scan {piece : Piece} {first : Char} {tail : List Char} {kind : TokenKind}
    (toList : piece.text.toList = first :: tail)
    (words : piece.words drift = [⟨kind, piece.text, none⟩])
    (scan : ∀ rest : List Char, (∀ c ∈ rest.head?, next c) →
      gapLength (first :: (tail ++ rest)) = 0 ∧
        scanToken drift first (tail ++ rest) = ⟨kind, tail.length⟩) :
    LegibleBefore drift next [piece] := by
  intro rest others scans ends
  obtain ⟨starts, scan⟩ := scan rest ends
  have whole := scans.token starts scan
  rw [← toList, String.ofList_toList] at whole
  simpa [wordsOf, words, toList] using whole

/-- A piece that is one token alone. -/
lemma legible_of_alone {piece : Piece} {kind : TokenKind}
    (alone : Alone drift piece.text.toList kind)
    (words : piece.words drift = [⟨kind, piece.text, none⟩]) : Legible drift [piece] := by
  intro rest others scans ends
  have whole := alone.scans ends scans
  rw [String.ofList_toList] at whole
  simpa [wordsOf, words] using whole

/-- A piece of bare letters. -/
lemma legible_of_word {piece : Piece} {first : Char} {tail : List Char} {kind : TokenKind}
    (toList : piece.text.toList = first :: tail)
    (start : isIdentifierStart first = true) (all : ∀ c ∈ tail, isIdentifierChar c = true)
    (is_kind : .ofWord piece.text = kind)
    (words : piece.words drift = [⟨kind, piece.text, none⟩]) :
    LegibleBefore drift EndsName [piece] := by
  refine legible_of_scan toList words fun rest ends =>
    ⟨gapLength_of_char (isIdentifierChar_of_start start), ?_⟩
  rw [scanToken_word start all ends, ← is_kind, ← toList, String.ofList_toList]

/-- A name is written such that it is read as a name, in quotes if need be. -/
lemma legible_name (written : String) : LegibleBefore drift EndsName [.name written] := by
  by_cases plain : isPlainName written = true
  · have text : nameText written = written := if_pos plain
    unfold isPlainName at plain
    split at plain
    · exact absurd plain Bool.false_ne_true
    · next first tail toList =>
      simp only [Bool.and_eq_true, List.all_eq_true, Option.isNone_iff_eq_none] at plain
      obtain ⟨⟨start, all⟩, none⟩ := plain
      refine legible_of_word (by rw [Piece.text, text, toList]) start all ?_ rfl
      rw [Piece.text, text, TokenKind.ofWord, none]
  · have text : (nameText written).toList = Text.quoted '"' written.toList := by
      rw [nameText, if_neg plain, String.toList_ofList]
    refine legible_of_scan text rfl fun rest ends => ⟨?_, ?_⟩
    · rw [gapLength_eq_zero_iff]
      exact ⟨rfl, by simp, by simp⟩
    · have scan := scanQuotedToken_quoted (fun chars => .identifier (String.ofList chars))
        .unterminatedIdentifier written.toList fun head => (ends _ head).quote.2 rfl
      rw [String.ofList_toList] at scan
      exact scan

/-- A keyword, or another word that spells one. -/
lemma legible_of_ofText? {piece : Piece} {word : Keyword}
    (found : Keyword.ofText? piece.text = some word)
    (words : piece.words drift = [⟨.keyword word, piece.text, none⟩]) :
    LegibleBefore drift EndsName [piece] := by
  obtain ⟨nonempty, starts⟩ := Keyword.starts_of_ofText? found
  obtain ⟨first, tail, toList⟩ := List.exists_cons_of_ne_nil nonempty
  rw [toList] at starts
  refine legible_of_word toList (starts _ List.mem_cons_self)
    (fun c mem => isIdentifierChar_of_start (starts c (List.mem_cons_of_mem _ mem))) ?_ words
  rw [TokenKind.ofWord, found]

/-- A keyword is legible before whatever ends a name. -/
lemma legible_keyword (word : Keyword) : LegibleBefore drift EndsName [.keyword word] :=
  legible_of_ofText? word.ofText?_text rfl

/-- The name of a function is read as the keyword that it spells if that one names functions, and as
a name otherwise. -/
lemma legible_functionName (written : String) :
    LegibleBefore drift EndsName [.functionName written] := by
  by_cases names : ∃ word, Keyword.ofText? written = some word ∧ word.canNameFunction = true
  · obtain ⟨word, found, names⟩ := names
    have text : functionNameText written = written := by
      simp only [functionNameText, found, names, if_true]
    refine legible_of_ofText? ((congrArg _ text).trans found) ?_
    · simp only [Piece.words, Piece.text, text, Word.ofFunctionName, found, names, if_true]
  · have text : functionNameText written = nameText written := by
      unfold functionNameText
      split
      · next word found => exact if_neg fun can => names ⟨word, found, can⟩
      · rfl
    have word : Word.ofFunctionName written = .ofName written := by
      unfold Word.ofFunctionName
      split
      · next word found => exact if_neg fun can => names ⟨word, found, can⟩
      · rfl
    intro rest words scans ends
    have legible := legible_name written scans ends
    simpa [wordsOf, Piece.words, Piece.text, text, word] using legible

/-! ### Symbols -/

/-- A symbol that goes on with nothing is legible. -/
lemma legible_symbol (which : Symbol) (reads : which = .doubleStar → drift = true) :
    Legible drift [.symbol which] := by
  suffices alone : Alone drift which.text.toList (.symbol which) from legible_of_alone alone rfl
  cases which with
  | doubleStar =>
    obtain rfl := reads rfl
    exact ⟨rfl, ⟨_, _, rfl, rfl⟩, rfl⟩
  | _ => exact ⟨rfl, ⟨_, _, rfl, rfl⟩, rfl⟩

/-- Some symbols are read alike before whatever text. -/
lemma legible_bracket {which : Symbol}
    (mem : which ∈ [Symbol.leftParen, .rightParen, .comma, .semicolon, .plus, .bitNot]) :
    LegibleBefore drift (fun _ => True) [.symbol which] := by
  simp only [List.mem_cons, List.not_mem_nil, or_false] at mem
  rcases mem with rfl | rfl | rfl | rfl | rfl | rfl <;>
    exact legible_of_scan rfl rfl fun _ _ => ⟨rfl, rfl⟩

/-- A minus sign is legible where neither a further one, which would start a comment, nor an angle
bracket follows. -/
lemma legible_minus : LegibleBefore drift (fun c => c ≠ '-' ∧ c ≠ '>') [.symbol .minus] := by
  have toList : (Piece.symbol .minus).text.toList = ['-'] := rfl
  refine legible_of_scan toList rfl fun rest ends => ⟨?_, ?_⟩
  · rw [gapLength_eq_zero_iff]
    exact ⟨rfl, fun both => (ends _ both.2).1 rfl, by simp⟩
  · rw [scanToken_minus]
    exact scanMinus_of_head fun head => (ends _ head).2 rfl

/-- A dot is legible where no digit follows. -/
lemma legible_dot : LegibleBefore drift (fun c => c.isDigit = false) [.symbol .dot] := by
  have toList : (Piece.symbol .dot).text.toList = ['.'] := rfl
  refine legible_of_scan toList rfl fun rest ends => ⟨?_, ?_⟩
  · rw [gapLength_eq_zero_iff]
    exact ⟨rfl, by simp, by simp⟩
  · have noDigit : startsWith Char.isDigit rest = false := by
      cases rest with
      | nil => rfl
      | cons c rest => exact ends c rfl
    exact if_neg (by simp [noDigit])

/-! ## Pieces put together -/

/-- What is legible before whatever ends a name is legible before a blank, a separator or the
end. -/
lemma LegibleBefore.legible (before : LegibleBefore drift EndsName pieces) :
    Legible drift pieces :=
  before.mono fun _ inert => inert.endsName

namespace Trailing

/-- A piece that is a blank may stand after anything. -/
lemma of_blank {piece : Piece} {c : Char} (toList : piece.text.toList = [c])
    (isBlank : Text.isBlank c = true) (noWords : piece.words drift = [])
    (legible : Legible drift pieces) : Trailing drift (piece :: pieces) := by
  refine ⟨fun rest words scans ends => ?_, fun first head => ?_⟩
  · have whole := (legible scans ends).blank isBlank
    simpa [toList, wordsOf, noWords] using whole
  · rw [toList_text_cons, toList] at head
    obtain rfl := Option.some.inj head
    exact inert_of_blank isBlank

/-- After a name, a blank and whatever is legible may follow. -/
lemma blank (legible : Legible drift pieces) : Trailing drift (.blank :: pieces) :=
  of_blank (c := ' ') rfl rfl rfl legible

/-- After a name, the end of a line and whatever is legible may follow. -/
lemma lineEnd (legible : Legible drift pieces) : Trailing drift (.lineEnd :: pieces) :=
  of_blank (c := '\n') rfl rfl rfl legible

/-- After a name, a parenthesis, a comma or a semicolon may follow. -/
lemma symbol {which : Symbol} (mem : which ∈ [Symbol.leftParen, .rightParen, .comma, .semicolon])
    (legible : Legible drift pieces) : Trailing drift (.symbol which :: pieces) := by
  obtain ⟨bracket, first, toList, inert⟩ :
      which ∈ [Symbol.leftParen, .rightParen, .comma, .semicolon, .plus, .bitNot] ∧
        ∃ first, (Piece.symbol which).text.toList = [first] ∧ Inert first := by
    simp only [List.mem_cons, List.not_mem_nil, or_false] at mem
    rcases mem with rfl | rfl | rfl | rfl <;>
      exact ⟨by simp, _, rfl, by decide, by decide⟩
  refine ⟨LegibleBefore.cons (legible_bracket bracket) legible fun _ _ _ _ => trivial,
    fun c head => ?_⟩
  rw [toList_text_cons, toList] at head
  obtain rfl := Option.some.inj head
  exact inert

/-- After a name, parentheses may follow. -/
lemma parens (legible : Legible drift pieces) : Trailing drift (parens pieces) := by
  unfold Render.parens
  rw [List.cons_append]
  exact symbol (by simp) (legible.append (symbol (by simp) .nil))

/-- After a name, a part may follow that may be left out. -/
lemma optional {α : Type} {value : Option α} {part : α → List Piece}
    (each : ∀ inner ∈ value, Trailing drift (part inner)) :
    Trailing drift (optional value part) := by
  cases value with
  | none => exact nil
  | some inner => exact each inner rfl

end Trailing

namespace Legible

/-- A blank before pieces that are legible is legible. -/
lemma blank (legible : Legible drift pieces) : Legible drift (.blank :: pieces) :=
  (Trailing.blank legible).legible

/-- Pieces in parentheses are legible. -/
lemma parens (legible : Legible drift pieces) : Legible drift (parens pieces) :=
  (Trailing.parens legible).legible

/-- A keyword is legible before pieces that may follow a name. -/
lemma keyword (word : Keyword) (trailing : Trailing drift pieces) :
    Legible drift (.keyword word :: pieces) :=
  .cons (legible_keyword word).legible trailing

/-- A name is legible before pieces that may follow a name. -/
lemma name (written : String) (trailing : Trailing drift pieces) :
    Legible drift (.name written :: pieces) :=
  .cons (legible_name written).legible trailing

/-- The name of a function is legible before pieces that may follow a name. -/
lemma functionName (written : String) (trailing : Trailing drift pieces) :
    Legible drift (.functionName written :: pieces) :=
  .cons (legible_functionName written).legible trailing

/-- Parts with the same pieces between them. -/
lemma separated {between : List Piece} {parts : List (List Piece)}
    (joins : ∀ pieces, Legible drift pieces → Trailing drift (between ++ pieces))
    (each : ∀ part ∈ parts, Legible drift part) : Legible drift (separated between parts) := by
  induction parts with
  | nil => exact .nil
  | cons part rest ih =>
    have first := each part List.mem_cons_self
    have others := ih fun part mem => each part (List.mem_cons_of_mem _ mem)
    cases rest with
    | nil => exact first
    | cons next rest =>
      rw [Render.separated, List.append_assoc]
      · exact first.append (joins _ others)
      · exact fun h => nomatch h

/-- Parts with commas between them are legible if each of them is. -/
lemma commas {parts : List (List Piece)} (each : ∀ part ∈ parts, Legible drift part) :
    Legible drift (commas parts) :=
  separated (fun _ legible => .symbol (by simp) legible.blank) each

/-- Parts that are written with commas between them. -/
lemma mapped {α : Type} {list : List α} {part : α → List Piece}
    (each : ∀ value ∈ list, Legible drift (part value)) :
    Legible drift (Render.commas (list.map part)) := by
  refine commas fun pieces mem => ?_
  obtain ⟨value, inList, rfl⟩ := List.mem_map.mp mem
  exact each value inList

/-- Keywords with blanks between them are legible. -/
lemma words (keywords : List Keyword) : Legible drift (words keywords) := by
  refine separated (fun _ legible => .blank legible) fun part mem => ?_
  obtain ⟨word, -, rfl⟩ := List.mem_map.mp mem
  exact (legible_keyword word).legible

/-- Names with commas between them are legible. -/
lemma names (list : List String) : Legible drift (names list) :=
  mapped fun written _ => (legible_name written).legible

/-- Keywords that are followed by blanks may stand before anything. -/
lemma after_wordsIf (legible : Legible drift pieces) (condition : Bool) (keywords : List Keyword) :
    Legible drift (wordsIf condition keywords ++ pieces) := by
  unfold wordsIf
  split
  · induction keywords with
    | nil => exact legible
    | cons word rest ih => exact .keyword word (.blank ih)
  · exact legible

/-- Pieces that do not start with a digit, with a name and a point before them. -/
lemma dotted (legible : Legible drift pieces) (written : String)
    (starts : ∃ first tail, (text pieces).toList = first :: tail ∧ first.isDigit = false) :
    Legible drift (.name written :: .symbol .dot :: pieces) := by
  obtain ⟨first, tail, eq, notDigit⟩ := starts
  have point : (Piece.symbol .dot).text.toList = ['.'] := rfl
  have after : Legible drift (.symbol .dot :: pieces) := by
    refine LegibleBefore.cons legible_dot legible fun rest _ c head => ?_
    rw [eq] at head
    obtain rfl := Option.some.inj head
    exact notDigit
  refine LegibleBefore.cons (legible_name written) after fun rest _ c head => ?_
  rw [toList_text_cons, point, List.singleton_append, List.cons_append, List.head?_cons,
    Option.mem_some_iff] at head
  subst head
  exact ⟨rfl, by decide, by decide⟩

/-- A name does not start with a digit. -/
lemma start_name (written : String) : ∃ first tail,
    (text (.name written :: pieces)).toList = first :: tail ∧ first.isDigit = false := by
  obtain ⟨first, tail, toList, starts⟩ := head_nameText written
  exact ⟨first, _, by rw [toList_text_cons, Piece.text, toList, List.cons_append],
    starts.not_digit⟩

/-- The name of a function does not start with a digit. -/
lemma start_functionName (written : String) : ∃ first tail,
    (text (.functionName written :: pieces)).toList = first :: tail ∧ first.isDigit = false := by
  obtain ⟨first, tail, toList, starts⟩ := head_functionNameText written
  exact ⟨first, _, by rw [toList_text_cons, Piece.text, toList, List.cons_append],
    starts.not_digit⟩

/-- A name that may be qualified is legible. -/
lemma qualified (schema : Option String) (written : String) :
    Legible drift (qualified schema written) := by
  cases schema with
  | none => exact name written .nil
  | some schema => exact dotted (name written .nil) schema (start_name written)

end Legible

namespace Trailing

/-- A keyword between blanks, with what it introduces. -/
lemma clause (word : Keyword) (legible : Legible drift pieces) :
    Trailing drift (.blank :: .keyword word :: .blank :: pieces) :=
  blank (.keyword word (blank legible))

/-- An alias may follow a name. -/
lemma aliased (aliasName : Option String) : Trailing drift (aliased aliasName) := by
  cases aliasName with
  | none => exact nil
  | some written => exact clause .AS (.name _ nil)

/-- Keywords that may be left out may follow a name. -/
lemma suffix (keywords : Option (List Keyword)) : Trailing drift (suffix keywords) := by
  cases keywords with
  | none => exact nil
  | some keywords => exact blank (.words keywords)

end Trailing

end Render

end SqlTree
