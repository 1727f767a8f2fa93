import Mathlib.Tactic.Lemma
import Mathlib.Tactic.SplitIfs
import SqlTree.Token.Lexer

set_option autoImplicit false

/-!
# Where tokens end

How a token is scanned depends on its own characters and on the first one after it. So it is scanned
in the same way if the text is cut off after it, and if a blank, a parenthesis, a comma or a
semicolon is put there, unless it is open for want of a closing quote.

## Main definitions

* `SqlTree.Inert` — the character goes on with no token.
* `SqlTree.Releases` — a rest of a text lets go of the tokens that another rest lets go of.

## Main results

* `SqlTree.scanToken_cut` — a token is scanned in the same way before another rest.
* `SqlTree.scanToken_within` — a token ends within the text.
-/

namespace SqlTree

/-! ## Characters that end tokens -/

/-- The character goes on with no token. -/
structure Inert (c : Char) : Prop where
  word : isIdentifierChar c = false
  mark : c ∉ ['.', '\'', '"', ']', '\x60', '+', '-', '=', '<', '>', '|', '*']

/-- Of two rests of a text, the second one starts with the same character, or with none that goes on
with a token. -/
def Releases (rest rest' : List Char) : Prop :=
  rest'.head? = rest.head? ∨ ∀ c ∈ rest'.head?, Inert c

/-- The blanks, by their numbers. -/
def blanks : List Nat :=
  [0x09, 0x0A, 0x0B, 0x0C, 0x0D, 0x20, 0x85, 0xA0, 0x1680, 0x2000, 0x2001, 0x2002, 0x2003, 0x2004,
    0x2005, 0x2006, 0x2007, 0x2008, 0x2009, 0x200A, 0x2028, 0x2029, 0x202F, 0x205F, 0x3000]

/-- The list of blanks is complete. -/
lemma toNat_mem_blanks {c : Char} (blank : Text.isBlank c = true) : c.toNat ∈ blanks := by
  unfold Text.isBlank Text.inRanges at blank
  simp only [List.any_cons, List.any_nil, Bool.or_false, Bool.or_eq_true, Bool.and_eq_true,
    decide_eq_true_eq] at blank
  generalize c.toNat = code at blank
  unfold blanks
  simp only [List.mem_cons, List.not_mem_nil, or_false]
  omega

/-- None of the blanks is part of a word or of a symbol that goes on, which is checked one by
one. -/
lemma blanks_inert : ∀ code ∈ blanks, isIdentifierChar (Char.ofNat code) = false ∧
    Char.ofNat code ∉ ['.', '\'', '"', ']', '\x60', '+', '-', '=', '<', '>', '|', '*'] := by
  decide +kernel

/-- Blanks go on with no token. -/
lemma inert_of_blank {c : Char} (blank : Text.isBlank c = true) : Inert c := by
  obtain ⟨word, mark⟩ := blanks_inert _ (toNat_mem_blanks blank)
  rw [Char.ofNat_toNat] at word mark
  exact ⟨word, mark⟩

/-- A digit may be part of a word. -/
lemma isIdentifierChar_of_digit {c : Char} (digit : c.isDigit = true) :
    isIdentifierChar c = true := by
  have ascii : c.toNat < 0x80 := by
    simp only [Char.isDigit, Bool.and_eq_true, decide_eq_true_eq] at digit
    have := digit.2
    change c.val.toNat < 0x80
    have : c.val.toNat ≤ 57 := UInt32.le_iff_toNat_le.mp digit.2
    omega
  simp [isIdentifierChar, Text.isAlphanumeric, ascii, Char.isAlphanum, digit]

/-- What may start a word may be part of it. -/
lemma isIdentifierChar_of_start {c : Char} (start : isIdentifierStart c = true) :
    isIdentifierChar c = true := by
  unfold isIdentifierStart Text.isAlphabetic at start
  unfold isIdentifierChar Text.isAlphanumeric Char.isAlphanum
  split_ifs at start ⊢ <;> rw [Bool.or_eq_true] at start <;> rcases start with start | start <;>
    simp [start]

/-- A hexadecimal digit may be part of a word. -/
lemma isIdentifierChar_of_hex {c : Char} (hex : Text.isHexDigit c = true) :
    isIdentifierChar c = true := by
  have range : ∀ {low high : Char}, (low ≤ c && c ≤ high) = true →
      low.val.toNat ≤ c.val.toNat ∧ c.val.toNat ≤ high.val.toNat := by
    intro low high between
    rw [Bool.and_eq_true, decide_eq_true_eq, decide_eq_true_eq] at between
    exact between
  have ascii : c.val.toNat < 0x80 ∧ c.isAlphanum = true := by
    unfold Text.isHexDigit Text.hexDigitValue? at hex
    delta Char.isAlphanum Char.isAlpha Char.isUpper Char.isLower Char.isDigit
    simp only [Bool.or_eq_true, Bool.and_eq_true, decide_eq_true_eq, ge_iff_le,
      UInt32.le_iff_toNat_le]
    split_ifs at hex with digit upper lower
    · have := range digit
      simp at this ⊢
      omega
    · have := range upper
      simp at this ⊢
      omega
    · have := range lower
      simp at this ⊢
      omega
    · simp at hex
  have small : c.toNat < 0x80 := ascii.1
  simp [isIdentifierChar, Text.isAlphanumeric, small, ascii.2]

namespace Inert

variable {c : Char} (inert : Inert c)

include inert

/-- What goes on with no token is no digit. -/
lemma not_digit : c.isDigit = false :=
  Bool.eq_false_iff.mpr fun digit => by simpa [inert.word] using isIdentifierChar_of_digit digit

/-- What goes on with no token starts no word. -/
lemma not_start : isIdentifierStart c = false :=
  Bool.eq_false_iff.mpr fun start => by simpa [inert.word] using isIdentifierChar_of_start start

/-- What goes on with no token is no hexadecimal digit. -/
lemma not_hex : Text.isHexDigit c = false :=
  Bool.eq_false_iff.mpr fun hex => by simpa [inert.word] using isIdentifierChar_of_hex hex

end Inert

/-! ## Runs of characters -/

section

variable {test : Char → Bool} {chars rest rest' : List Char}

/-- A run of characters that ends before the rest is the same before another rest. -/
lemma takeWhile_cut (length : ((chars ++ rest).takeWhile test).length ≤ chars.length)
    (releases : Releases rest rest') (inert : ∀ c, Inert c → test c = false) :
    (chars ++ rest').takeWhile test = (chars ++ rest).takeWhile test := by
  induction chars with
  | nil =>
    have stops : rest.takeWhile test = [] := List.length_eq_zero_iff.mp (by simpa using length)
    have head : ∀ c ∈ rest.head?, test c = false := by
      cases rest with
      | nil => simp
      | cons c rest => simpa [List.takeWhile_cons] using stops
    simp only [List.nil_append, stops]
    cases rest' with
    | nil => rfl
    | cons c rest' =>
      have : test c = false := by
        rcases releases with same | ends
        · exact head c (by rw [← same]; rfl)
        · exact inert c (ends c rfl)
      simp [this]
  | cons c chars ih =>
    simp only [List.cons_append, List.takeWhile_cons] at length ⊢
    split at length
    · next passes => rw [if_pos passes, if_pos passes, ih (by simpa using length)]
    · next fails => rw [if_neg fails, if_neg fails]

/-- If a rest does not start with some kind of character that goes on with tokens, neither does one
that releases its tokens. -/
lemma startsWith_cut (fails : startsWith test rest = false) (releases : Releases rest rest')
    (inert : ∀ c, Inert c → test c = false) : startsWith test rest' = false := by
  cases rest' with
  | nil => rfl
  | cons c rest' =>
    rcases releases with same | ends
    · cases rest with
      | nil => simp at same
      | cons d rest =>
        obtain rfl : c = d := by simpa using same
        exact fails
    · exact inert c (ends c rfl)

end

/-! ## Words and variables -/

section

variable {first : Char} {tail rest rest' : List Char} {kind : TokenKind}

/-- A word is scanned in the same way before another rest. -/
lemma scanWord_cut (cut : scanWord first (tail ++ rest) = ⟨kind, tail.length⟩)
    (releases : Releases rest rest') :
    scanWord first (tail ++ rest') = ⟨kind, tail.length⟩ := by
  have length : ((tail ++ rest).takeWhile isIdentifierChar).length ≤ tail.length := by
    have := congrArg Scanned.tail cut
    unfold scanWord at this
    dsimp only at this
    split at this <;> exact Nat.le_of_eq this
  unfold scanWord at cut ⊢
  rw [takeWhile_cut length releases fun c inert => inert.word]
  exact cut

/-- A question mark and its number are scanned in the same way before another rest. -/
lemma scanQuestion_cut (cut : scanQuestion (tail ++ rest) = ⟨kind, tail.length⟩)
    (releases : Releases rest rest') : scanQuestion (tail ++ rest') = ⟨kind, tail.length⟩ := by
  have length : ((tail ++ rest).takeWhile Char.isDigit).length ≤ tail.length := by
    have := congrArg Scanned.tail cut
    unfold scanQuestion at this
    dsimp only at this
    split_ifs at this with empty
    · rw [List.isEmpty_iff] at empty
      simp [empty]
    all_goals exact Nat.le_of_eq this
  unfold scanQuestion at cut ⊢
  rw [takeWhile_cut length releases fun c inert => inert.not_digit]
  exact cut

/-- A named variable is scanned in the same way before another rest. -/
lemma scanNamed_cut {sigil : Sigil} {alone : TokenKind}
    (cut : scanNamed sigil alone (tail ++ rest) = ⟨kind, tail.length⟩)
    (releases : Releases rest rest') :
    scanNamed sigil alone (tail ++ rest') = ⟨kind, tail.length⟩ := by
  have length : ((tail ++ rest).takeWhile isIdentifierChar).length ≤ tail.length := by
    have := congrArg Scanned.tail cut
    unfold scanNamed at this
    dsimp only at this
    split_ifs at this with empty
    · rw [List.isEmpty_iff] at empty
      simp [empty]
    · exact Nat.le_of_eq this
  unfold scanNamed at cut ⊢
  rw [takeWhile_cut length releases fun c inert => inert.word]
  exact cut

end

/-! ## Text in quotes -/

section

variable {close : Char} {doubling : Bool} {rest : List Char}

/-- A character that closes no quote belongs to the quoted text. -/
lemma scanQuoted_inside {c : Char} (inside : c ≠ close) :
    scanQuoted close doubling (c :: rest) =
      (scanQuoted close doubling rest).map fun (value, count) => (c :: value, count + 1) := by
  rw [scanQuoted.eq_def]
  exact if_neg inside

/-- A quote that is doubled stands for itself. -/
lemma scanQuoted_doubled :
    scanQuoted close true (close :: close :: rest) =
      (scanQuoted close true rest).map fun (value, count) => (close :: value, count + 2) := by
  rw [scanQuoted.eq_def]
  simp

/-- A quote that is not doubled closes the text. -/
lemma scanQuoted_closes (single : doubling = true → rest.head? ≠ some close) :
    scanQuoted close doubling (close :: rest) = some ([], 1) := by
  rw [scanQuoted.eq_def]
  simp only [↓reduceIte]
  split
  · next d rest =>
    rw [if_neg]
    rw [Bool.and_eq_true, beq_iff_eq]
    rintro ⟨doubles, rfl⟩
    exact single doubles rfl
  · rfl

/-- What follows an opening quote is at least the closing one. -/
lemma scanQuoted_pos {chars value : List Char} {count : Nat}
    (found : scanQuoted close doubling chars = some (value, count)) : 0 < count := by
  rw [scanQuoted.eq_def] at found
  split at found
  · exact absurd found (by simp)
  · split at found
    · split at found
      · split at found
        · obtain ⟨inner, -, eq⟩ := Option.map_eq_some_iff.mp found
          rw [← (Prod.mk.inj eq).2]
          omega
        · rw [← (Prod.mk.inj (Option.some.inj found)).2]
          exact Nat.one_pos
      · rw [← (Prod.mk.inj (Option.some.inj found)).2]
        exact Nat.one_pos
    · obtain ⟨inner, -, eq⟩ := Option.map_eq_some_iff.mp found
      rw [← (Prod.mk.inj eq).2]
      omega

end

/-- A quoted text is scanned in the same way before another rest.

**Proof sketch.** By strong induction on what is left of the token, as a doubled quote takes two
characters at once. A character other than the quote belongs to the text, and the induction goes on.
A doubled quote lies within the token, unless the token ended with the first of the two, and then
the closing quote would have been taken for a doubled one. A closing quote still closes: the
character after it is the same, or is no quote. -/
lemma scanQuoted_cut {close : Char} {doubling : Bool} {tail rest rest' value : List Char}
    (mark : close ∈ ['.', '\'', '"', ']', '\x60', '+', '-', '=', '<', '>', '|', '*'])
    (cut : scanQuoted close doubling (tail ++ rest) = some (value, tail.length))
    (releases : Releases rest rest') :
    scanQuoted close doubling (tail ++ rest') = some (value, tail.length) := by
  induction size : tail.length using Nat.strongRecOn generalizing tail value with
  | ind size ih =>
    subst size
    cases tail with
    | nil => exact absurd (scanQuoted_pos cut) (Nat.lt_irrefl 0)
    | cons c tail =>
      rw [List.cons_append] at cut ⊢
      by_cases closes : c = close
      · subst closes
        by_cases doubled : doubling = true ∧ (tail ++ rest).head? = some c
        · obtain ⟨rfl, head⟩ := doubled
          cases tail with
          | nil =>
            obtain ⟨after, rfl⟩ := List.head?_eq_some_iff.mp head
            rw [List.nil_append, scanQuoted_doubled, Option.map_eq_some_iff] at cut
            obtain ⟨inner, -, eq⟩ := cut
            exact absurd (Prod.mk.inj eq).2 (by simp)
          | cons d tail =>
            obtain rfl : d = c := by simpa using head
            rw [List.cons_append, scanQuoted_doubled] at cut ⊢
            rw [Option.map_eq_some_iff] at cut
            obtain ⟨⟨inner, count⟩, cut, eq⟩ := cut
            obtain ⟨rfl, length⟩ := Prod.mk.inj eq
            obtain rfl : count = tail.length := by simpa using length
            rw [ih _ (by simp only [List.length_cons]; omega) cut rfl]
            rfl
        · rw [scanQuoted_closes fun doubles head => doubled ⟨doubles, head⟩] at cut
          obtain ⟨rfl, length⟩ := Prod.mk.inj (Option.some.inj cut)
          obtain rfl : tail = [] := List.length_eq_zero_iff.mp (by simpa using length)
          refine scanQuoted_closes fun doubles head => ?_
          rcases releases with same | ends
          · exact doubled ⟨doubles, same ▸ head⟩
          · exact (ends c head).mark mark
      · rw [scanQuoted_inside closes] at cut ⊢
        rw [Option.map_eq_some_iff] at cut
        obtain ⟨⟨inner, count⟩, cut, eq⟩ := cut
        obtain ⟨rfl, length⟩ := Prod.mk.inj eq
        obtain rfl : count = tail.length := by simpa using length
        rw [ih _ (by simp) cut rfl]
        rfl

/-! ## Numbers -/

section

variable {chars rest rest' : List Char}

/-- A character that the rest does not start with is not at the start of another rest. -/
lemma head_cut {mark : Char} (absent : rest.head? ≠ some mark) (releases : Releases rest rest')
    (active : ¬ Inert mark) : rest'.head? ≠ some mark := by
  intro head
  rcases releases with same | ends
  · exact absent (same ▸ head)
  · exact active (ends mark head)

/-- Without its letter there is no exponent. -/
lemma exponentLength_of_head {chars : List Char} (lower : chars.head? ≠ some 'e')
    (upper : chars.head? ≠ some 'E') : exponentLength chars = (0, true) := by
  cases chars with
  | nil => rfl
  | cons c chars =>
    have lower : c ≠ 'e' := by simpa using lower
    have upper : c ≠ 'E' := by simpa using upper
    simp [exponentLength, lower, upper]

/-- An exponent has the same length before another rest.

**Proof sketch.** If the token ends before the letter of an exponent, the rest has no such letter,
and neither has the other rest (`exponentLength_of_head`). Otherwise the letter is in the token.
Whether a sign follows is the same, since a sign after the end of the token would have been taken,
and so are the digits after it (`takeWhile_cut`). -/
lemma exponentLength_cut (length : (exponentLength (chars ++ rest)).1 ≤ chars.length)
    (releases : Releases rest rest') :
    exponentLength (chars ++ rest') = exponentLength (chars ++ rest) := by
  cases chars with
  | nil =>
    have absent : ∀ mark, mark = 'e' ∨ mark = 'E' → rest.head? ≠ some mark := by
      rintro mark either head
      obtain ⟨after, rfl⟩ := List.head?_eq_some_iff.mp head
      rcases either with rfl | rfl <;> simp [exponentLength] at length
    have active : ∀ mark, mark = 'e' ∨ mark = 'E' → ¬ Inert mark := by
      rintro mark (rfl | rfl) inert <;> exact absurd inert.word (by decide)
    rw [List.nil_append, List.nil_append,
      exponentLength_of_head (absent _ (.inl rfl)) (absent _ (.inr rfl)),
      exponentLength_of_head (head_cut (absent _ (.inl rfl)) releases (active _ (.inl rfl)))
        (head_cut (absent _ (.inr rfl)) releases (active _ (.inr rfl)))]
  | cons mark chars =>
    rw [List.cons_append, exponentLength] at length
    rw [List.cons_append, List.cons_append, exponentLength, exponentLength]
    by_cases isMark : (mark == 'e' || mark == 'E') = true
    · rw [if_pos isMark] at length
      rw [if_pos isMark, if_pos isMark]
      dsimp only at length ⊢
      have signs : startsWith (fun c => c == '+' || c == '-') (chars ++ rest') =
          startsWith (fun c => c == '+' || c == '-') (chars ++ rest) := by
        cases chars with
        | cons c chars => rfl
        | nil =>
          have unsigned : startsWith (fun c => c == '+' || c == '-') rest = false := by
            rw [← Bool.not_eq_true]
            intro signed
            rw [List.nil_append, if_pos signed] at length
            simp only [List.length_cons, List.length_nil] at length
            omega
          exact (startsWith_cut unsigned releases fun c inert => by
            have := inert.mark
            simp only [List.mem_cons, not_or] at this
            simp [this.2.2.2.2.2.1, this.2.2.2.2.2.2.1]).trans unsigned.symm
      rw [signs]
      generalize signed : startsWith (fun c => c == '+' || c == '-') (chars ++ rest) = sign
        at length
      have within : (if sign = true then 1 else 0) ≤ chars.length := by
        simp only [List.length_cons] at length
        omega
      rw [List.drop_append_of_le_length within] at length
      rw [List.drop_append_of_le_length within, List.drop_append_of_le_length within,
        takeWhile_cut _ releases fun c inert => inert.not_digit]
      simp only [List.length_cons, List.length_drop] at length ⊢
      omega
    · rw [if_neg isMark, if_neg isMark]

/-- The number of characters of the decimal places with their point. -/
def fractionLength : List Char → Nat
  | '.' :: rest => 1 + (rest.takeWhile Char.isDigit).length
  | _ => 0

/-- Without its point there is no fraction. -/
lemma fractionLength_of_head {chars : List Char} (absent : chars.head? ≠ some '.') :
    fractionLength chars = 0 := by
  unfold fractionLength
  split
  · exact absurd rfl absent
  · rfl

/-- A fraction has the same length before another rest. -/
lemma fractionLength_cut (length : fractionLength (chars ++ rest) ≤ chars.length)
    (releases : Releases rest rest') :
    fractionLength (chars ++ rest') = fractionLength (chars ++ rest) := by
  cases chars with
  | nil =>
    have absent : rest.head? ≠ some '.' := by
      intro head
      obtain ⟨after, rfl⟩ := List.head?_eq_some_iff.mp head
      simp only [List.nil_append, fractionLength, List.length_nil] at length
      omega
    have absent' := head_cut absent releases fun inert => absurd inert.mark (by decide)
    rw [List.nil_append, List.nil_append, fractionLength_of_head absent,
      fractionLength_of_head absent']
  | cons c chars =>
    by_cases point : c = '.'
    · subst point
      simp only [List.cons_append, fractionLength, List.length_cons] at length ⊢
      rw [takeWhile_cut (by omega) releases fun c inert => inert.not_digit]
    · have absent : ∀ after, (c :: chars ++ after).head? ≠ some '.' := by simpa using point
      rw [fractionLength_of_head (absent rest), fractionLength_of_head (absent rest')]

/-- The lengths of the parts of a decimal number: its digits, its decimal places and its power of
ten, and whether that one has digits. -/
def decimalParts (chars : List Char) : Nat × Nat × Nat × Bool :=
  let whole := (chars.takeWhile Char.isDigit).length
  let fraction := fractionLength (chars.drop whole)
  (whole, fraction, exponentLength (chars.drop (whole + fraction)))

/-- The parts of a decimal number are the same before another rest, each because the ones before it
are. -/
lemma decimalParts_cut
    (length : (decimalParts (chars ++ rest)).1 + (decimalParts (chars ++ rest)).2.1 +
      (decimalParts (chars ++ rest)).2.2.1 ≤ chars.length)
    (releases : Releases rest rest') :
    decimalParts (chars ++ rest') = decimalParts (chars ++ rest) := by
  unfold decimalParts at length ⊢
  dsimp only at length ⊢
  rw [takeWhile_cut (by omega) releases fun c inert => inert.not_digit]
  generalize ((chars ++ rest).takeWhile Char.isDigit).length = whole at length
  have within : whole ≤ chars.length := by omega
  rw [List.drop_append_of_le_length within] at length
  rw [List.drop_append_of_le_length within, List.drop_append_of_le_length within,
    fractionLength_cut (by rw [List.length_drop]; omega) releases]
  generalize fractionLength (chars.drop whole ++ rest) = fraction at length
  have within : whole + fraction ≤ chars.length := by omega
  rw [List.drop_append_of_le_length within] at length
  rw [List.drop_append_of_le_length within, List.drop_append_of_le_length within,
    exponentLength_cut (by rw [List.length_drop]; omega) releases]

/-- The kind and the length of a decimal number, from the lengths of its parts and the characters
in and after it. -/
def decimalKind : Nat × Nat × Nat × Bool → List Char → List Char → TokenKind × Nat
  | (whole, fraction, exponent, complete), digits, rest =>
    let length := whole + fraction + exponent
    if !complete then
      (.malformed .malformedExponent, length + identifierLength rest)
    else if startsWith isIdentifierStart rest then
      (.malformed .identifierAfterNumber, length + identifierLength rest)
    else if fraction = 0 && exponent = 0 && Text.decimalValue digits < 0x8000000000000000 then
      (.integer (Int64.ofNat (Text.decimalValue digits)), length)
    else
      (.float (((Decimal.Numeral.ofChars? digits).map Decimal.Numeral.toFloat).getD 0), length)

/-- A decimal number is its parts, and what they and the characters after them amount to. -/
lemma scanDecimal_eq (chars : List Char) :
    scanDecimal chars =
      let parts := decimalParts chars
      let length := parts.1 + parts.2.1 + parts.2.2.1
      decimalKind parts (chars.take length) (chars.drop length) := rfl

/-- A decimal number takes at least its parts. -/
lemma decimalKind_length (parts : Nat × Nat × Nat × Bool) (digits rest : List Char) :
    parts.1 + parts.2.1 + parts.2.2.1 ≤ (decimalKind parts digits rest).2 := by
  obtain ⟨whole, fraction, exponent, complete⟩ := parts
  unfold decimalKind
  dsimp only
  split_ifs <;> simp

/-- Whether a name goes on after a number, and how far, is the same before another rest. -/
lemma identifierLength_cut (length : identifierLength (chars ++ rest) ≤ chars.length)
    (releases : Releases rest rest') :
    identifierLength (chars ++ rest') = identifierLength (chars ++ rest) := by
  unfold identifierLength at length ⊢
  rw [takeWhile_cut length releases fun c inert => inert.word]

/-- A word that starts is not empty. -/
lemma identifierLength_pos {chars : List Char} (starts : startsWith isIdentifierChar chars = true) :
    0 < identifierLength chars := by
  cases chars with
  | nil => simp [startsWith] at starts
  | cons c chars =>
    have starts : isIdentifierChar c = true := starts
    simp [identifierLength, starts]

/-- A text that no name starts has none at the start before another rest. -/
lemma startsWith_append_cut {test : Char → Bool} (inert : ∀ c, Inert c → test c = false)
    (goes : ∀ c, test c = true → isIdentifierChar c = true)
    (length : startsWith test (chars ++ rest) = true →
      identifierLength (chars ++ rest) ≤ chars.length)
    (releases : Releases rest rest') :
    startsWith test (chars ++ rest') = startsWith test (chars ++ rest) := by
  cases chars with
  | cons c chars => rfl
  | nil =>
    have fails : startsWith test rest = false := by
      rw [← Bool.not_eq_true]
      intro starts
      have word : startsWith isIdentifierChar rest = true := by
        cases rest with
        | nil => exact starts
        | cons c rest => exact goes c starts
      have := identifierLength_pos word
      have := length starts
      simp only [List.nil_append, List.length_nil] at this
      omega
    exact (startsWith_cut fails releases inert).trans fails.symm

/-- A decimal number is scanned in the same way before another rest.

**Proof sketch.** Its parts lie within the token and are the same (`decimalParts_cut`). What is left
to decide is whether a word follows them, which makes the number malformed and belongs to it. If the
word does not start within the token then it does not start after it, and otherwise it ends there as
well (`startsWith_append_cut`, `identifierLength_cut`). -/
lemma scanDecimal_cut (length : (scanDecimal (chars ++ rest)).2 = chars.length)
    (releases : Releases rest rest') :
    scanDecimal (chars ++ rest') = scanDecimal (chars ++ rest) := by
  rw [scanDecimal_eq] at length
  rw [scanDecimal_eq, scanDecimal_eq]
  dsimp only at length ⊢
  have within : (decimalParts (chars ++ rest)).1 + (decimalParts (chars ++ rest)).2.1 +
      (decimalParts (chars ++ rest)).2.2.1 ≤ chars.length :=
    Nat.le_trans (decimalKind_length ..) (Nat.le_of_eq length)
  rw [decimalParts_cut within releases]
  generalize decimalParts (chars ++ rest) = parts at length within
  rw [List.take_append_of_le_length within, List.drop_append_of_le_length within] at length
  rw [List.take_append_of_le_length within, List.take_append_of_le_length within,
    List.drop_append_of_le_length within, List.drop_append_of_le_length within]
  obtain ⟨whole, fraction, exponent, complete⟩ := parts
  dsimp only at length within ⊢
  have size := List.length_drop (i := whole + fraction + exponent) (l := chars)
  have names : complete = false ∨
      startsWith isIdentifierStart (chars.drop (whole + fraction + exponent) ++ rest) = true →
        identifierLength (chars.drop (whole + fraction + exponent) ++ rest) ≤
          (chars.drop (whole + fraction + exponent)).length := by
    intro either
    unfold decimalKind at length
    dsimp only at length
    split_ifs at length <;> simp_all <;> omega
  have starts := startsWith_append_cut (fun c inert => inert.not_start)
    (fun c => isIdentifierChar_of_start) (fun starts => names (.inr starts)) releases
  unfold decimalKind
  dsimp only
  rw [starts]
  split_ifs with incomplete begins
  · rw [identifierLength_cut (names (.inl (by simpa using incomplete))) releases]
  · rw [identifierLength_cut (names (.inr begins)) releases]
  all_goals rfl

/-- A hexadecimal number is scanned in the same way before another rest: its digits are the same,
and whether a word follows them is. -/
lemma scanHex_cut (length : (scanHex (chars ++ rest)).2 = chars.length)
    (releases : Releases rest rest') : scanHex (chars ++ rest') = scanHex (chars ++ rest) := by
  have digits : ((chars ++ rest).takeWhile Text.isHexDigit).length ≤ chars.length := by
    unfold scanHex at length
    dsimp only at length
    split_ifs at length with trailing empty
    · omega
    · rw [List.isEmpty_iff] at empty
      simp [empty]
    · omega
    · omega
  unfold scanHex at length ⊢
  rw [takeWhile_cut digits releases fun c inert => inert.not_hex]
  generalize (chars ++ rest).takeWhile Text.isHexDigit = word at length digits
  dsimp only at length ⊢
  rw [List.drop_append_of_le_length digits] at length
  rw [List.drop_append_of_le_length digits, List.drop_append_of_le_length digits]
  have size := List.length_drop (i := word.length) (l := chars)
  have names : startsWith isIdentifierChar (chars.drop word.length ++ rest) = true →
      identifierLength (chars.drop word.length ++ rest) ≤ (chars.drop word.length).length := by
    intro starts
    rw [if_pos starts] at length
    dsimp only at length
    omega
  rw [startsWith_append_cut (fun c inert => inert.word) (fun c word => word) names releases]
  split_ifs with trailing
  · rw [identifierLength_cut (names trailing) releases]
  all_goals rfl

end

/-- A decimal number takes the digit or the point it starts with. -/
lemma scanDecimal_pos {first : Char} {rest : List Char}
    (starts : first.isDigit = true ∨ first = '.') : 0 < (scanDecimal (first :: rest)).2 := by
  rw [scanDecimal_eq]
  refine Nat.lt_of_lt_of_le ?_ (decimalKind_length ..)
  unfold decimalParts
  dsimp only
  rcases starts with digit | rfl
  · rw [List.takeWhile_cons_of_pos digit, List.length_cons]
    omega
  · have : ((('.' :: rest).takeWhile Char.isDigit).length) = 0 := by simp
    rw [this]
    simp only [List.drop_zero, fractionLength]
    omega

/-- The text of a number does not start like a hexadecimal one. -/
lemma scanNumber_decimal {first : Char} {rest : List Char}
    (decimal : ¬ (first = '0' ∧ (rest.head? = some 'x' ∨ rest.head? = some 'X'))) :
    scanNumber first rest =
      ⟨(scanDecimal (first :: rest)).1, (scanDecimal (first :: rest)).2 - 1⟩ := by
  unfold scanNumber
  dsimp only
  split
  · rw [if_neg]
    simpa using decimal
  · rfl

/-- After a zero and the letter, hexadecimal digits are read. -/
lemma scanNumber_hex {mark : Char} {digits : List Char} (isMark : mark = 'x' ∨ mark = 'X') :
    scanNumber '0' (mark :: digits) = ⟨(scanHex digits).1, (scanHex digits).2 + 1⟩ := by
  unfold scanNumber
  dsimp only
  rw [if_pos (by simpa using isMark)]

/-- A number is scanned in the same way before another rest.

**Proof sketch.** If the letter of a hexadecimal number follows a zero, it is part of the token, and
the digits are the same (`scanHex_cut`). If it does not follow, then neither does it before the
other rest, as the letter goes on with tokens, and the number is decimal both times
(`scanDecimal_cut`). -/
lemma scanNumber_cut {first : Char} {tail rest rest' : List Char} {kind : TokenKind}
    (starts : first.isDigit = true ∨ first = '.')
    (cut : scanNumber first (tail ++ rest) = ⟨kind, tail.length⟩) (releases : Releases rest rest') :
    scanNumber first (tail ++ rest') = ⟨kind, tail.length⟩ := by
  by_cases hex : first = '0' ∧
      ((tail ++ rest).head? = some 'x' ∨ (tail ++ rest).head? = some 'X')
  · obtain ⟨rfl, mark⟩ := hex
    cases tail with
    | nil =>
      cases rest with
      | nil => simp at mark
      | cons c rest =>
        rw [List.nil_append, scanNumber_hex (by simpa using mark)] at cut
        exact absurd (congrArg Scanned.tail cut) (by simp)
    | cons c tail =>
      have isMark : c = 'x' ∨ c = 'X' := by simpa using mark
      rw [List.cons_append, scanNumber_hex isMark] at cut ⊢
      have length : (scanHex (tail ++ rest)).2 = tail.length := by
        simpa using congrArg Scanned.tail cut
      rw [scanHex_cut length releases]
      exact cut
  · have decimal : ¬ (first = '0' ∧
        ((tail ++ rest').head? = some 'x' ∨ (tail ++ rest').head? = some 'X')) := by
      rintro ⟨zero, mark⟩
      cases tail with
      | cons c tail => exact hex ⟨zero, mark⟩
      | nil =>
        have absent : rest.head? ≠ some 'x' ∧ rest.head? ≠ some 'X' :=
          ⟨fun head => hex ⟨zero, .inl head⟩, fun head => hex ⟨zero, .inr head⟩⟩
        rcases mark with mark | mark
        · exact head_cut absent.1 releases (fun inert => absurd inert.word (by decide)) mark
        · exact head_cut absent.2 releases (fun inert => absurd inert.word (by decide)) mark
    rw [scanNumber_decimal hex] at cut
    have length : (scanDecimal (first :: tail ++ rest)).2 = (first :: tail).length := by
      have := congrArg Scanned.tail cut
      have : 0 < (scanDecimal (first :: (tail ++ rest))).2 := scanDecimal_pos starts
      simp only [List.cons_append, List.length_cons] at *
      omega
    rw [scanNumber_decimal decimal]
    have same : scanDecimal (first :: (tail ++ rest')) = scanDecimal (first :: (tail ++ rest)) :=
      scanDecimal_cut length releases
    rw [same]
    exact cut

/-! ## Any token -/

/-- The token is open for want of a closing quote. -/
def LexicalError.isOpen : LexicalError → Bool
  | .unterminatedString | .unterminatedIdentifier | .unterminatedDart | .unterminatedBlob => true
  | _ => false

/-- The kind is that of a token that is open for want of a closing quote. -/
def TokenKind.isOpen : TokenKind → Bool
  | .malformed error => error.isOpen
  | _ => false

/-- A quoted token is scanned in the same way before another rest. Where its closing quote is
missing it takes the whole text, so the other rest has to be empty as well. -/
lemma scanQuotedToken_cut {close : Char} {doubling : Bool} {error : LexicalError}
    {make : List Char → TokenKind} {tail rest rest' : List Char} {kind : TokenKind}
    (mark : close ∈ ['.', '\'', '"', ']', '\x60', '+', '-', '=', '<', '>', '|', '*'])
    (open_ : error.isOpen = true)
    (cut : scanQuotedToken close doubling error make (tail ++ rest) = ⟨kind, tail.length⟩)
    (releases : Releases rest rest') (closed : kind.isOpen = true → rest' = []) :
    scanQuotedToken close doubling error make (tail ++ rest') = ⟨kind, tail.length⟩ := by
  unfold scanQuotedToken at cut ⊢
  split at cut
  · next value count found =>
    obtain ⟨rfl, rfl⟩ := Scanned.mk.inj cut
    rw [scanQuoted_cut mark found releases]
  · next missing =>
    obtain ⟨rfl, length⟩ := Scanned.mk.inj cut
    obtain rfl := closed open_
    obtain rfl : rest = [] := by simpa using length
    rw [missing]
    simp

/-- A word, a number, or a single character that starts neither is scanned in the same way before
another rest. -/
lemma scanOther_cut {first : Char} {tail rest rest' : List Char} {kind : TokenKind}
    (cut : scanToken.scanOther first (tail ++ rest) = ⟨kind, tail.length⟩)
    (releases : Releases rest rest') :
    scanToken.scanOther first (tail ++ rest') = ⟨kind, tail.length⟩ := by
  unfold scanToken.scanOther at cut ⊢
  split_ifs at cut ⊢ with digit start
  · exact scanNumber_cut (.inl digit) cut releases
  · exact scanWord_cut cut releases
  · exact cut

/-! ### Symbols -/

/-- The kinds of the symbols of two characters, by their first and second ones. -/
def doubled (drift : Bool) : Char → Char → Option TokenKind
  | '*', '*' => if drift then some (.symbol .doubleStar) else none
  | '=', '=' => some (.symbol .doubleEq)
  | '<', '=' => some (.symbol .ltEq)
  | '<', '>' => some (.symbol .ltGt)
  | '<', '<' => some (.symbol .leftShift)
  | '>', '=' => some (.symbol .gtEq)
  | '>', '>' => some (.symbol .rightShift)
  | '!', '=' => some (.symbol .notEq)
  | '|', '|' => some (.symbol .concat)
  | _, _ => none

/-- The kinds of the characters that are tokens unless another character follows. -/
def single : Char → Option TokenKind
  | '(' => some (.symbol .leftParen)
  | ')' => some (.symbol .rightParen)
  | ',' => some (.symbol .comma)
  | ';' => some (.symbol .semicolon)
  | '+' => some (.symbol .plus)
  | '/' => some (.symbol .slash)
  | '%' => some (.symbol .percent)
  | '~' => some (.symbol .bitNot)
  | '&' => some (.symbol .bitAnd)
  | '*' => some (.symbol .star)
  | '=' => some (.symbol .eq)
  | '<' => some (.symbol .lt)
  | '>' => some (.symbol .gt)
  | '!' => some (.malformed (.unexpectedCharacter '!'))
  | '|' => some (.symbol .bitOr)
  | _ => none

section

variable {drift : Bool} (rest : List Char)

/-- The token of one character, or of two if the second one makes up a symbol with the first. -/
def single.scan (drift : Bool) (first : Char) (alone : TokenKind) (rest : List Char) : Scanned :=
  match rest.head?.bind (doubled drift first) with
  | some kind => ⟨kind, 1⟩
  | none => ⟨alone, 0⟩

/-- Two characters that make up a symbol are scanned together. -/
lemma scanToken_doubled {first second : Char} {kind : TokenKind}
    (found : doubled drift first second = some kind) :
    scanToken drift first (second :: rest) = ⟨kind, 1⟩ := by
  unfold doubled at found
  split at found
  · cases drift
    · exact absurd found (by simp)
    · obtain rfl := Option.some.inj found
      rfl
  all_goals first
  | obtain rfl := Option.some.inj found; rfl
  | exact nomatch found

/-- A character is scanned alone if it makes up no symbol with the next one.

**Proof sketch.** By the first character. For those that never go on the claim is immediate. For
each of the others the second character is none of those that it would make up a symbol with, since
`doubled` says so. -/
lemma scanToken_alone {first second : Char} {alone : TokenKind}
    (found : single first = some alone) (none : doubled drift first second = none) :
    scanToken drift first (second :: rest) = ⟨alone, 0⟩ := by
  unfold single at found
  split at found
  all_goals first
  | obtain rfl := Option.some.inj found
  | exact nomatch found
  case h_10 =>
    by_cases star : second = '*'
    · subst star
      cases drift
      · rfl
      · exact absurd none (by simp [doubled])
    · simp [scanToken, star]
  case h_11 =>
    have eq : second ≠ '=' := by rintro rfl; simp [doubled] at none
    simp [scanToken, eq]
  case h_12 =>
    have eq : second ≠ '=' := by rintro rfl; simp [doubled] at none
    have gt : second ≠ '>' := by rintro rfl; simp [doubled] at none
    have lt : second ≠ '<' := by rintro rfl; simp [doubled] at none
    simp [scanToken, eq, gt, lt]
  case h_13 =>
    have eq : second ≠ '=' := by rintro rfl; simp [doubled] at none
    have gt : second ≠ '>' := by rintro rfl; simp [doubled] at none
    simp [scanToken, eq, gt]
  case h_14 =>
    have eq : second ≠ '=' := by rintro rfl; simp [doubled] at none
    by_cases quote : second = '\''
    · subst quote
      rfl
    · have other : scanToken drift '!' (second :: rest) =
          scanToken.scanOther '!' (second :: rest) := by simp [scanToken, eq, quote]
      exact other.trans rfl
  case h_15 =>
    have bar : second ≠ '|' := by rintro rfl; simp [doubled] at none
    simp [scanToken, bar]
  all_goals rfl

end

/-- A symbol of two characters is scanned if the second one follows the first one. -/
lemma scanToken_single {drift : Bool} {first : Char} {alone : TokenKind} (rest : List Char)
    (found : single first = some alone) :
    scanToken drift first rest = single.scan drift first alone rest := by
  unfold single.scan
  cases rest with
  | nil =>
    unfold single at found
    split at found
    all_goals first
    | obtain rfl := Option.some.inj found; rfl
    | exact nomatch found
  | cons second rest =>
    rw [List.head?_cons, Option.bind_some]
    cases two : doubled drift first second with
    | some kind => exact scanToken_doubled rest two
    | none => exact scanToken_alone rest found two

/-- The second character of a symbol goes on with a token. -/
lemma doubled_active {drift : Bool} {first second : Char} {kind : TokenKind}
    (found : doubled drift first second = some kind) : ¬ Inert second := by
  intro inert
  have := inert.mark
  unfold doubled at found
  split at found <;> simp at this found

/-- A symbol of one or two characters is scanned in the same way before another rest: a second
character that would belong to it comes neither after the token nor with the other rest. -/
lemma single_cut {drift : Bool} {first : Char} {alone : TokenKind} {tail rest rest' : List Char}
    {kind : TokenKind}
    (cut : single.scan drift first alone (tail ++ rest) = ⟨kind, tail.length⟩)
    (releases : Releases rest rest') :
    single.scan drift first alone (tail ++ rest') = ⟨kind, tail.length⟩ := by
  unfold single.scan at cut ⊢
  cases tail with
  | cons c tail =>
    simp only [List.cons_append, List.head?_cons] at cut ⊢
    exact cut
  | nil =>
    have none : rest.head?.bind (doubled drift first) = none := by
      split at cut
      · exact absurd (congrArg Scanned.tail cut) (by simp)
      · assumption
    have none' : rest'.head?.bind (doubled drift first) = .none := by
      rw [Option.bind_eq_none_iff] at none ⊢
      intro c head
      rw [Option.eq_none_iff_forall_ne_some]
      intro other found
      rcases releases with same | ends
      · rw [same] at head
        rw [none c head] at found
        exact absurd found (by simp)
      · exact doubled_active found (ends c head)
    rw [List.nil_append, none] at cut
    rw [List.nil_append, none']
    exact cut

/-! ### Other characters -/

section

variable {drift : Bool} (rest : List Char)

/-- A minus sign, or an arrow. -/
def scanMinus : List Char → Scanned
  | '>' :: '>' :: _ => ⟨.symbol .doubleArrow, 2⟩
  | '>' :: _ => ⟨.symbol .arrow, 1⟩
  | _ => ⟨.symbol .minus, 0⟩

/-- A minus sign may start an arrow. -/
lemma scanToken_minus : scanToken drift '-' rest = scanMinus rest := by
  rcases rest with _ | ⟨c, rest⟩
  · rfl
  by_cases gt : c = '>'
  · subst gt
    rcases rest with _ | ⟨d, rest⟩
    · rfl
    by_cases gt : d = '>'
    · subst gt
      rfl
    · simp [scanToken, scanMinus, gt]
  · simp [scanToken, scanMinus, gt]

/-- The other characters that a token is told by. -/
def marks : List Char :=
  ['-', '.', '?', ':', '@', '$', '\'', '"', '[', '\x60']

/-- A blob, or a number or name. -/
def scanPlain (first : Char) (rest : List Char) : Scanned :=
  if (first = 'x' ∨ first = 'X') ∧ rest.head? = some '\'' then
    let scanned := scanQuotedToken '\'' false .unterminatedBlob blobKind rest.tail
    ⟨scanned.kind, scanned.tail + 1⟩
  else
    scanToken.scanOther first rest

/-- What starts no symbol, variable or quoted token is a word, a blob, a number or an unexpected
character. -/
lemma scanToken_plain {first : Char} (alone : single first = none) (plain : first ∉ marks) :
    scanToken drift first rest = scanPlain first rest := by
  unfold marks at plain
  unfold scanToken scanPlain
  dsimp only
  split
  case h_36 content _ _ _ _ _ _ _ _ _ _ _ _ _ _ _ _ _ _ =>
    by_cases mark : first = 'x' ∨ first = 'X' <;> simp [mark]
  case h_37 =>
    rw [if_neg]
    rintro ⟨-, head⟩
    obtain ⟨content, rfl⟩ := List.head?_eq_some_iff.mp head
    exact (show ∀ other, '\'' :: content = '\'' :: other → False by assumption) _ rfl
  all_goals first | exact absurd alone (Option.some_ne_none _) | simp at plain

end

/-- A minus sign alone is the symbol. -/
lemma scanMinus_of_head {chars : List Char} (absent : chars.head? ≠ some '>') :
    scanMinus chars = ⟨.symbol .minus, 0⟩ := by
  unfold scanMinus
  split
  · exact absurd rfl absent
  · exact absurd rfl absent
  · rfl

/-- A minus sign and one angle bracket are an arrow. -/
lemma scanMinus_arrow {chars : List Char} (absent : chars.head? ≠ some '>') :
    scanMinus ('>' :: chars) = ⟨.symbol .arrow, 1⟩ := by
  cases chars with
  | nil => rfl
  | cons c chars =>
    have : c ≠ '>' := by simpa using absent
    simp [scanMinus, this]

/-- A minus sign or an arrow is scanned in the same way before another rest.

**Proof sketch.** By how many angle brackets the token has. Where it ends, no further bracket
follows in the rest, and so none follows in the other one, since a bracket goes on with tokens. -/
lemma scanMinus_cut {tail rest rest' : List Char} {kind : TokenKind}
    (cut : scanMinus (tail ++ rest) = ⟨kind, tail.length⟩) (releases : Releases rest rest') :
    scanMinus (tail ++ rest') = ⟨kind, tail.length⟩ := by
  have absent : rest.head? ≠ some '>' → rest'.head? ≠ some '>' := fun absent =>
    head_cut absent releases fun inert => absurd inert.mark (by decide)
  rcases tail with _ | ⟨c, tail⟩
  · have minus : rest.head? ≠ some '>' := by
      intro head
      obtain ⟨after, rfl⟩ := List.head?_eq_some_iff.mp head
      have := congrArg Scanned.tail cut
      rw [List.nil_append] at this
      unfold scanMinus at this
      split at this <;> simp_all
    rw [List.nil_append, scanMinus_of_head minus] at cut
    rw [List.nil_append, scanMinus_of_head (absent minus)]
    exact cut
  by_cases first : c = '>'
  · subst first
    rcases tail with _ | ⟨d, tail⟩
    · have arrow : rest.head? ≠ some '>' := by
        intro head
        obtain ⟨after, rfl⟩ := List.head?_eq_some_iff.mp head
        exact absurd (congrArg Scanned.tail cut) (by simp [scanMinus])
      simp only [List.cons_append, List.nil_append] at cut ⊢
      rw [scanMinus_arrow arrow] at cut
      rw [scanMinus_arrow (absent arrow)]
      exact cut
    · by_cases second : d = '>'
      · subst second
        exact cut
      · have head : ∀ after, (d :: tail ++ after).head? ≠ some '>' := by simpa using second
        rw [List.cons_append, scanMinus_arrow (head rest)] at cut
        rw [List.cons_append, scanMinus_arrow (head rest')]
        exact cut
  · have head : ∀ after, (c :: tail ++ after).head? ≠ some '>' := by simpa using first
    rw [scanMinus_of_head (head rest)] at cut
    rw [scanMinus_of_head (head rest')]
    exact cut

/-- A number that starts with a point takes more than the point. -/
lemma scanPoint_pos {rest : List Char} (digit : startsWith Char.isDigit rest = true) :
    0 < (scanNumber '.' rest).tail := by
  cases rest with
  | nil => exact absurd digit (by simp [startsWith])
  | cons c rest =>
    have digit : c.isDigit = true := digit
    rw [scanNumber_decimal (by simp), scanDecimal_eq]
    dsimp only
    refine Nat.lt_sub_of_add_lt (Nat.lt_of_lt_of_le ?_ (decimalKind_length ..))
    unfold decimalParts
    simp [fractionLength, digit]
    omega

/-- A point, or a number that starts with one, is scanned in the same way before another rest. -/
lemma scanPoint_cut {tail rest rest' : List Char} {kind : TokenKind}
    (cut : (if startsWith Char.isDigit (tail ++ rest) = true then scanNumber '.' (tail ++ rest)
      else ⟨.symbol .dot, 0⟩) = ⟨kind, tail.length⟩)
    (releases : Releases rest rest') :
    (if startsWith Char.isDigit (tail ++ rest') = true then scanNumber '.' (tail ++ rest')
      else ⟨.symbol .dot, 0⟩) = ⟨kind, tail.length⟩ := by
  cases tail with
  | nil =>
    have undigit : startsWith Char.isDigit rest = false := by
      rw [← Bool.not_eq_true]
      intro digit
      rw [List.nil_append, if_pos digit] at cut
      have := scanPoint_pos digit
      rw [cut] at this
      exact absurd this (Nat.lt_irrefl 0)
    have undigit' := startsWith_cut undigit releases fun c inert => inert.not_digit
    rw [List.nil_append, undigit] at cut
    rw [List.nil_append, undigit']
    exact cut
  | cons c tail =>
    by_cases digit : c.isDigit = true
    · have starts : ∀ after, startsWith Char.isDigit (c :: tail ++ after) = true := fun _ => digit
      rw [if_pos (starts rest)] at cut
      rw [if_pos (starts rest')]
      exact scanNumber_cut (.inr rfl) cut releases
    · have starts : ∀ after, startsWith Char.isDigit (c :: tail ++ after) = false := fun _ =>
        Bool.eq_false_iff.mpr digit
      rw [starts rest] at cut
      rw [starts rest']
      exact cut

/-- A word, a blob, a number or an unexpected character is scanned in the same way before another
rest.

**Proof sketch.** A blob is a letter and a quote, and if the quote does not follow the letter it
does not follow before the other rest. In a blob the quoted digits are the same
(`scanQuotedToken_cut`), and all else is `scanOther_cut`. -/
lemma scanPlain_cut {first : Char} {tail rest rest' : List Char} {kind : TokenKind}
    (cut : scanPlain first (tail ++ rest) = ⟨kind, tail.length⟩)
    (releases : Releases rest rest') (closed : kind.isOpen = true → rest' = []) :
    scanPlain first (tail ++ rest') = ⟨kind, tail.length⟩ := by
  unfold scanPlain at cut ⊢
  cases tail with
  | nil =>
    have absent : ¬ ((first = 'x' ∨ first = 'X') ∧ rest.head? = some '\'') := by
      intro blob
      rw [List.nil_append, if_pos blob] at cut
      exact absurd (congrArg Scanned.tail cut) (by simp)
    have absent' : ¬ ((first = 'x' ∨ first = 'X') ∧ rest'.head? = some '\'') := by
      rintro ⟨mark, head⟩
      exact head_cut (fun head => absent ⟨mark, head⟩) releases
        (fun inert => absurd inert.mark (by decide)) head
    rw [List.nil_append, if_neg absent] at cut
    rw [List.nil_append, if_neg absent']
    exact @scanOther_cut first [] rest rest' kind cut releases
  | cons c tail =>
    rw [List.cons_append, List.head?_cons, List.tail_cons] at cut ⊢
    split at cut
    · next blob =>
      rw [if_pos blob]
      dsimp only at cut ⊢
      obtain ⟨rfl, length⟩ := Scanned.mk.inj cut
      generalize scanned : scanQuotedToken '\'' false .unterminatedBlob blobKind (tail ++ rest) =
        content at cut length closed
      obtain ⟨kind', count⟩ := content
      obtain rfl : count = tail.length := by simpa using length
      have inner := scanQuotedToken_cut (by simp) rfl scanned releases closed
      rw [inner]
      rfl
    · next other =>
      rw [if_neg other]
      rw [← List.cons_append] at cut ⊢
      exact scanOther_cut cut releases

/-- **A token is scanned in the same way before another rest of the text**, if that one starts with
the same character or with none that goes on with a token. Only where a quote is missing it makes a
difference what follows. -/
theorem scanToken_cut {drift : Bool} {first : Char} {tail rest rest' : List Char}
    {kind : TokenKind} (cut : scanToken drift first (tail ++ rest) = ⟨kind, tail.length⟩)
    (releases : Releases rest rest') (closed : kind.isOpen = true → rest' = []) :
    scanToken drift first (tail ++ rest') = ⟨kind, tail.length⟩ := by
  cases alone : single first with
  | some kind' =>
    rw [scanToken_single _ alone] at cut ⊢
    exact single_cut cut releases
  | none =>
    by_cases plain : first ∈ marks
    · unfold marks at plain
      simp only [List.mem_cons, List.not_mem_nil, or_false] at plain
      rcases plain with rfl | rfl | rfl | rfl | rfl | rfl | rfl | rfl | rfl | rfl
      · rw [scanToken_minus] at cut ⊢
        exact scanMinus_cut cut releases
      · exact scanPoint_cut cut releases
      · exact scanQuestion_cut cut releases
      · exact scanNamed_cut cut releases
      · exact scanNamed_cut cut releases
      · exact scanNamed_cut cut releases
      · exact scanQuotedToken_cut (by simp) rfl cut releases closed
      · exact scanQuotedToken_cut (by simp) rfl cut releases closed
      · exact scanQuotedToken_cut (by simp) rfl cut releases closed
      · cases drift
        · exact scanQuotedToken_cut (by simp) rfl cut releases closed
        · exact scanQuotedToken_cut (by simp) rfl cut releases closed
    · rw [scanToken_plain _ alone plain] at cut ⊢
      exact scanPlain_cut cut releases closed

/-! ## Tokens within the text -/

/-- The token ends within the text after its first character, and takes all of it if it is open. -/
structure Scanned.Within (scanned : Scanned) (rest : List Char) : Prop where
  length : scanned.tail ≤ rest.length
  whole : scanned.kind.isOpen = true → scanned.tail = rest.length

namespace Scanned.Within

variable {rest : List Char} {kind : TokenKind} {count : Nat}

/-- A token that is not open ends within the text if it is not longer. -/
lemma of_closed (closed : kind.isOpen = false) (length : count ≤ rest.length) :
    (Scanned.mk kind count).Within rest :=
  ⟨length, fun isOpen => by simp [closed] at isOpen⟩

/-- A token of a single character that is not open ends within the text. -/
lemma none (closed : kind.isOpen = false) : (Scanned.mk kind 0).Within rest :=
  of_closed closed (Nat.zero_le _)

end Scanned.Within

section

variable {rest : List Char}

/-- A run of characters is not longer than the text. -/
lemma length_takeWhile_le (test : Char → Bool) : (rest.takeWhile test).length ≤ rest.length :=
  (List.takeWhile_prefix test).length_le

/-- A word ends within the text. -/
lemma scanWord_within (first : Char) : (scanWord first rest).Within rest := by
  unfold scanWord
  dsimp only
  split <;> exact .of_closed rfl (length_takeWhile_le _)

/-- A question mark and its number end within the text. -/
lemma scanQuestion_within : (scanQuestion rest).Within rest := by
  unfold scanQuestion
  dsimp only
  split_ifs
  · exact .none rfl
  all_goals exact .of_closed rfl (length_takeWhile_le _)

/-- A named variable ends within the text. -/
lemma scanNamed_within {sigil : Sigil} {alone : TokenKind} (closed : alone.isOpen = false) :
    (scanNamed sigil alone rest).Within rest := by
  unfold scanNamed
  dsimp only
  split_ifs
  · exact .none closed
  · exact .of_closed rfl (length_takeWhile_le _)

/-- A quoted text ends within the text, by strong induction on it, as a doubled quote takes two
characters at once. -/
lemma scanQuoted_within {close : Char} {doubling : Bool} {value : List Char} {count : Nat}
    (found : scanQuoted close doubling rest = some (value, count)) : count ≤ rest.length := by
  induction size : rest.length using Nat.strongRecOn generalizing rest value count with
  | ind size ih =>
    subst size
    have inner : ∀ {chars : List Char} {make : List Char → List Char} {more : Nat},
        chars.length < rest.length → chars.length + more ≤ rest.length →
        (scanQuoted close doubling chars).map (fun (value, count) => (make value, count + more)) =
          some (value, count) → count ≤ rest.length := by
      intro chars make more shorter within found
      obtain ⟨⟨value, count⟩, found, eq⟩ := Option.map_eq_some_iff.mp found
      have := ih _ shorter found rfl
      rw [← (Prod.mk.inj eq).2]
      omega
    cases rest with
    | nil => exact absurd found (by simp [scanQuoted])
    | cons c rest =>
      rw [scanQuoted.eq_def] at found
      dsimp only at found
      split_ifs at found
      · split at found
        · split_ifs at found
          · exact inner (by simp only [List.length_cons]; omega) (by simp) found
          · rw [← (Prod.mk.inj (Option.some.inj found)).2]
            simp
        · rw [← (Prod.mk.inj (Option.some.inj found)).2]
          simp
      · exact inner (by simp) (by simp) found

/-- A quoted token ends within the text, and with the text if its closing quote is missing. -/
lemma scanQuotedToken_within {close : Char} {doubling : Bool} {error : LexicalError}
    {make : List Char → TokenKind} (closed : ∀ value, (make value).isOpen = false) :
    (scanQuotedToken close doubling error make rest).Within rest := by
  unfold scanQuotedToken
  split
  · next found => exact .of_closed (closed _) (scanQuoted_within found)
  · exact ⟨Nat.le_refl _, fun _ => rfl⟩

/-- The digits of a blob may be wrong, but it is closed. -/
lemma blobKind_closed (digits : List Char) : (blobKind digits).isOpen = false := by
  unfold blobKind
  split_ifs <;> rfl

/-- An exponent is not longer than the text. -/
lemma exponentLength_le : (exponentLength rest).1 ≤ rest.length := by
  cases rest with
  | nil => exact Nat.le_refl 0
  | cons mark rest =>
    rw [exponentLength]
    by_cases isMark : (mark == 'e' || mark == 'E') = true
    · rw [if_pos isMark]
      dsimp only
      have fits : (if startsWith (fun c => c == '+' || c == '-') rest = true then 1 else 0) ≤
          rest.length := by
        cases rest with
        | nil => exact Nat.le_refl 0
        | cons => split <;> simp
      generalize (if startsWith (fun c => c == '+' || c == '-') rest = true then 1 else 0) = sign
        at *
      have digits : ((rest.drop sign).takeWhile Char.isDigit).length ≤ (rest.drop sign).length :=
        length_takeWhile_le _
      rw [List.length_drop] at digits
      rw [List.length_cons]
      omega
    · rw [if_neg isMark]
      exact Nat.zero_le _

/-- A fraction is not longer than the text. -/
lemma fractionLength_le : fractionLength rest ≤ rest.length := by
  unfold fractionLength
  split
  · next after =>
    have : (after.takeWhile Char.isDigit).length ≤ after.length := length_takeWhile_le _
    simp only [List.length_cons]
    omega
  · exact Nat.zero_le _

/-- A word is not longer than the text. -/
lemma identifierLength_le : identifierLength rest ≤ rest.length :=
  length_takeWhile_le _

/-- A decimal number is not longer than the text, and is not open. -/
lemma scanDecimal_within : (scanDecimal rest).2 ≤ rest.length ∧
    (scanDecimal rest).1.isOpen = false := by
  rw [scanDecimal_eq]
  dsimp only
  have length : (decimalParts rest).1 + (decimalParts rest).2.1 + (decimalParts rest).2.2.1 ≤
      rest.length := by
    unfold decimalParts
    dsimp only
    have digits : (rest.takeWhile Char.isDigit).length ≤ rest.length := length_takeWhile_le _
    generalize (rest.takeWhile Char.isDigit).length = whole at *
    have places : fractionLength (rest.drop whole) ≤ (rest.drop whole).length := fractionLength_le
    generalize fractionLength (rest.drop whole) = fraction at *
    have power : (exponentLength (rest.drop (whole + fraction))).1 ≤
        (rest.drop (whole + fraction)).length := exponentLength_le
    rw [List.length_drop] at places power
    omega
  generalize decimalParts rest = parts at *
  obtain ⟨whole, fraction, exponent, complete⟩ := parts
  have name : identifierLength (rest.drop (whole + fraction + exponent)) ≤
      (rest.drop (whole + fraction + exponent)).length := identifierLength_le
  rw [List.length_drop] at name
  unfold decimalKind
  dsimp only at *
  split_ifs
  all_goals exact ⟨by dsimp only; omega, rfl⟩

/-- A hexadecimal number is not longer than the text, and is not open. -/
lemma scanHex_within : (scanHex rest).2 ≤ rest.length ∧ (scanHex rest).1.isOpen = false := by
  have digits : (rest.takeWhile Text.isHexDigit).length ≤ rest.length := length_takeWhile_le _
  unfold scanHex
  dsimp only
  generalize (rest.takeWhile Text.isHexDigit) = word at *
  have name : identifierLength (rest.drop word.length) ≤ (rest.drop word.length).length :=
    identifierLength_le
  rw [List.length_drop] at name
  split_ifs
  all_goals exact ⟨by dsimp only; omega, rfl⟩

/-- A number ends within the text. -/
lemma scanNumber_within (first : Char) : (scanNumber first rest).Within rest := by
  have decimal : (Scanned.mk (scanDecimal (first :: rest)).1
      ((scanDecimal (first :: rest)).2 - 1)).Within rest := by
    have within : (scanDecimal (first :: rest)).2 ≤ (first :: rest).length :=
      scanDecimal_within.1
    rw [List.length_cons] at within
    exact .of_closed scanDecimal_within.2 (by omega)
  unfold scanNumber
  dsimp only
  split
  · next digits =>
    split_ifs
    · have : (scanHex digits).2 ≤ digits.length := scanHex_within.1
      exact .of_closed scanHex_within.2 (by rw [List.length_cons]; omega)
    · exact decimal
  · exact decimal

/-- A word, a number, or a single character that starts neither ends within the text. -/
lemma scanOther_within (first : Char) : (scanToken.scanOther first rest).Within rest := by
  unfold scanToken.scanOther
  split_ifs
  · exact scanNumber_within first
  · exact scanWord_within first
  · exact .none rfl

/-- A symbol of two characters is not open. -/
lemma doubled_closed {drift : Bool} {first second : Char} {kind : TokenKind}
    (found : doubled drift first second = some kind) : kind.isOpen = false := by
  unfold doubled at found
  split at found
  case h_1 =>
    split at found
    · exact Option.some.inj found ▸ rfl
    · exact absurd found (by simp)
  all_goals first | exact Option.some.inj found ▸ rfl | exact absurd found (by simp)

/-- A symbol of one character is not open. -/
lemma single_closed {first : Char} {kind : TokenKind} (found : single first = some kind) :
    kind.isOpen = false := by
  unfold single at found
  split at found
  all_goals first | exact Option.some.inj found ▸ rfl | exact absurd found (by simp)

/-- A symbol of one or two characters ends within the text. -/
lemma single_within {drift : Bool} {first : Char} {alone : TokenKind}
    (closed : alone.isOpen = false) : (single.scan drift first alone rest).Within rest := by
  unfold single.scan
  split
  · next kind found =>
    cases rest with
    | nil => exact absurd found (by simp)
    | cons second rest =>
      exact .of_closed (doubled_closed (by simpa using found)) (by simp)
  · exact .none closed

/-- A minus sign or an arrow ends within the text. -/
lemma scanMinus_within : (scanMinus rest).Within rest := by
  unfold scanMinus
  split
  · exact .of_closed rfl (by simp)
  · exact .of_closed rfl (by simp)
  · exact .none rfl

/-- A word, a blob, a number or an unexpected character ends within the text. -/
lemma scanPlain_within (first : Char) : (scanPlain first rest).Within rest := by
  unfold scanPlain
  split_ifs with blob
  · obtain ⟨content, rfl⟩ := List.head?_eq_some_iff.mp blob.2
    rw [List.tail_cons]
    have within : (scanQuotedToken '\'' false .unterminatedBlob blobKind content).Within content :=
      scanQuotedToken_within blobKind_closed
    refine ⟨?_, fun isOpen => ?_⟩
    · simpa using within.length
    · simpa using within.whole isOpen
  · exact scanOther_within first

/-- **A token ends within the text**, and where a quote is missing it ends with the text.

**Proof sketch.** By the first character: a symbol (`single_within`), one of the marks that start a
token of their own kind, each with its own lemma, or any other character (`scanPlain_within`). -/
theorem scanToken_within (drift : Bool) (first : Char) (rest : List Char) :
    (scanToken drift first rest).Within rest := by
  cases alone : single first with
  | some kind =>
    rw [scanToken_single _ alone]
    exact single_within (single_closed alone)
  | none =>
    by_cases plain : first ∈ marks
    · unfold marks at plain
      simp only [List.mem_cons, List.not_mem_nil, or_false] at plain
      rcases plain with rfl | rfl | rfl | rfl | rfl | rfl | rfl | rfl | rfl | rfl
      · rw [scanToken_minus]
        exact scanMinus_within
      · change (if startsWith Char.isDigit rest then scanNumber '.' rest
          else ⟨.symbol .dot, 0⟩ : Scanned).Within rest
        split_ifs
        · exact scanNumber_within _
        · exact .none rfl
      · exact scanQuestion_within
      · exact scanNamed_within rfl
      · exact scanNamed_within rfl
      · exact scanNamed_within rfl
      · exact scanQuotedToken_within fun _ => rfl
      · exact scanQuotedToken_within fun _ => rfl
      · exact scanQuotedToken_within fun _ => rfl
      · cases drift <;> exact scanQuotedToken_within fun _ => rfl
    · rw [scanToken_plain _ alone plain]
      exact scanPlain_within first

end

end SqlTree
