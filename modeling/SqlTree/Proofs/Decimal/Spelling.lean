import SqlTree.Decimal.Layout
import SqlTree.Proofs.Decimal.Shortest
import SqlTree.Proofs.Legible.Literal

set_option autoImplicit false

/-!
# Written doubles are scanned and read back

A double is written as digits, a point with further digits unless one digit suffices, and perhaps a
power of ten. Such a spelling is one token, and the numeral that is read from it has the value of
the numeral that was written. So every double without a sign that is finite or infinite is scanned
as itself.

## Main definitions

* `SqlTree.Decimal.Spelling` — how a numeral is written.

## Main results

* `SqlTree.Decimal.Spelling.ofChars?_chars` — the numeral that is read from a spelling.
* `SqlTree.Decimal.Layout.spells_writeMagnitude` — a double is spelled with its value.
* `SqlTree.Literal.alone_float` — a double is scanned as itself.
-/

namespace SqlTree.Decimal

/-! ## Spellings -/

/-- Digits, perhaps with a point and further digits, perhaps with a power of ten. -/
structure Spelling where
  whole : List Char
  fraction : Option (List Char)
  power : Option ℤ

namespace Spelling

/-- The characters of a power of ten. -/
def powerChars : Option ℤ → List Char
  | some power => 'e' :: (toString power).toList
  | none => []

/-- The characters of a fraction. -/
def fractionChars : Option (List Char) → List Char
  | some digits => '.' :: digits
  | none => []

/-- The characters of a spelling. -/
def chars (spelling : Spelling) : List Char :=
  spelling.whole ++ (fractionChars spelling.fraction ++ powerChars spelling.power)

/-- The numeral that is spelled. -/
def numeral (spelling : Spelling) : Numeral :=
  ⟨Text.decimalValue (spelling.whole ++ spelling.fraction.getD []),
    spelling.power.getD 0 - (spelling.fraction.getD []).length⟩

/-- There are digits before the point, and there is a point or a power of ten. -/
structure IsWritten (spelling : Spelling) : Prop where
  nonempty : spelling.whole ≠ []
  whole : ∀ c ∈ spelling.whole, c.isDigit = true
  fraction : ∀ c ∈ spelling.fraction.getD [], c.isDigit = true
  marked : spelling.fraction ≠ none ∨ spelling.power ≠ none

/-! ### The characters of a power of ten -/

/-- An integer is written as digits, with a hyphen before them if it is negative. -/
lemma toList_toString (power : ℤ) : ∃ digits : List Char,
    digits ≠ [] ∧ (∀ c ∈ digits, c.isDigit = true) ∧
      (0 ≤ power ∧ (toString power).toList = digits ∧ (Text.decimalValue digits : ℤ) = power ∨
        (toString power).toList = '-' :: digits ∧ -(Text.decimalValue digits : ℤ) = power) := by
  have all (n : ℕ) : ∀ c ∈ Nat.toDigits 10 n, c.isDigit = true :=
    fun c mem => Nat.isDigit_of_mem_toDigits (by omega) (by omega) mem
  have value (n : ℕ) : Text.decimalValue (Nat.toDigits 10 n) = n := by
    rw [decimalValue_eq, Nat.ofDigitChars_toDigits (by omega) (by omega)]
  cases power with
  | ofNat n =>
    refine ⟨Nat.toDigits 10 n, Nat.toDigits_ne_nil, all n, .inl ⟨Int.natCast_nonneg n, ?_, ?_⟩⟩
    · change (toString n).toList = _
      rw [Nat.toString_eq_ofList_toDigits, String.toList_ofList]
    · rw [value]
      rfl
  | negSucc n =>
    refine ⟨Nat.toDigits 10 (n + 1), Nat.toDigits_ne_nil, all _, .inr ⟨?_, ?_⟩⟩
    · change ("-" ++ toString (n + 1)).toList = _
      rw [String.toList_append, Nat.toString_eq_ofList_toDigits, String.toList_ofList]
      simp
    · rw [value]
      rfl

/-- A digit is no sign. -/
lemma not_sign_of_digit {c : Char} (digit : c.isDigit = true) : c ≠ '-' ∧ c ≠ '+' := by
  constructor <;> rintro rfl <;> exact absurd digit (by decide)

/-- A power of ten has the length of its characters, and its digits are there. -/
lemma exponentLength_powerChars (power : Option ℤ) :
    exponentLength (powerChars power) = ((powerChars power).length, true) := by
  cases power with
  | none => rfl
  | some power =>
    obtain ⟨digits, nonempty, all, ⟨-, eq, -⟩ | ⟨eq, -⟩⟩ := toList_toString power
    · obtain ⟨first, rest, rfl⟩ := List.exists_cons_of_ne_nil nonempty
      obtain ⟨noMinus, noPlus⟩ := not_sign_of_digit (all first List.mem_cons_self)
      have run : (first :: rest).takeWhile Char.isDigit = first :: rest :=
        List.takeWhile_eq_self_iff.mpr all
      rw [powerChars, eq, exponentLength]
      simp [startsWith, noMinus, noPlus, run, Nat.add_comm]
    · have run : digits.takeWhile Char.isDigit = digits := List.takeWhile_eq_self_iff.mpr all
      rw [powerChars, eq, exponentLength]
      simp [startsWith, run, nonempty]
      omega

/-- No power of ten starts with a digit or with a point. -/
lemma head_powerChars (power : Option ℤ) : ∀ c ∈ (powerChars power).head?, c = 'e' := by
  cases power <;> simp [powerChars]

/-! ### Reading -/

/-- The digits after a point, if there is one, and what follows them. -/
def fractionParts : List Char → List Char × List Char
  | '.' :: rest => (rest.takeWhile Char.isDigit, rest.dropWhile Char.isDigit)
  | rest => ([], rest)

/-- The sign of a power of ten, and its digits. -/
def signParts : List Char → ℤ × List Char
  | '-' :: digits => (-1, digits)
  | '+' :: digits => (1, digits)
  | digits => (1, digits)

/-- The power of ten that is written after the digits of a numeral. -/
def power? : List Char → Option ℤ
  | [] => some 0
  | mark :: rest =>
    let parts := signParts rest
    if (mark == 'e' || mark == 'E') && !parts.2.isEmpty && parts.2.all Char.isDigit then
      some (parts.1 * Text.decimalValue parts.2)
    else
      none

/-- The numeral of a text is read from its whole part, its fraction and its power. -/
lemma ofChars?_eq (chars : List Char) : Numeral.ofChars? chars =
    let whole := chars.takeWhile Char.isDigit
    let parts := fractionParts (chars.dropWhile Char.isDigit)
    match power? parts.2 with
    | some power =>
      if whole.isEmpty && parts.1.isEmpty then none
      else some ⟨Text.decimalValue (whole ++ parts.1), power - parts.1.length⟩
    | none => none :=
  rfl

/-- A power is read as it is written. -/
lemma power?_powerChars (power : Option ℤ) : power? (powerChars power) = some (power.getD 0) := by
  cases power with
  | none => rfl
  | some power =>
    obtain ⟨digits, nonempty, all, ⟨-, eq, value⟩ | ⟨eq, value⟩⟩ := toList_toString power
    · obtain ⟨first, rest, rfl⟩ := List.exists_cons_of_ne_nil nonempty
      obtain ⟨noMinus, noPlus⟩ := not_sign_of_digit (all first List.mem_cons_self)
      have parts : signParts (first :: rest) = (1, first :: rest) := by
        unfold signParts
        split
        · next same => exact absurd (List.cons.inj same).1 noMinus
        · next same => exact absurd (List.cons.inj same).1 noPlus
        · rfl
      rw [powerChars, eq, power?, parts]
      dsimp only
      rw [if_pos (by simpa using all), one_mul, value]
      rfl
    · rw [powerChars, eq, power?, signParts]
      rw [if_pos (by simpa [nonempty] using all), neg_one_mul, value]
      rfl

variable {spelling : Spelling}

/-- The digits that a spelling starts with are its whole part. -/
lemma takeWhile_whole (isWritten : spelling.IsWritten) :
    spelling.chars.takeWhile Char.isDigit = spelling.whole := by
  refine takeWhile_append_of_ends isWritten.whole fun c head => ?_
  cases fraction : spelling.fraction with
  | none =>
    rw [fraction] at head
    obtain rfl := head_powerChars _ c head
    rfl
  | some digits =>
    rw [fraction] at head
    obtain rfl := Option.some.inj head
    rfl

/-- The digits of a fraction end where the power starts. -/
lemma takeWhile_fraction {digits : List Char} (all : ∀ c ∈ digits, c.isDigit = true)
    (power : Option ℤ) : (digits ++ powerChars power).takeWhile Char.isDigit = digits :=
  takeWhile_append_of_ends all fun c head => by
    obtain rfl := head_powerChars power c head
    rfl

/-- What follows a run of characters that pass a test. -/
lemma dropWhile_of_takeWhile {test : Char → Bool} {run rest : List Char}
    (take : (run ++ rest).takeWhile test = run) : (run ++ rest).dropWhile test = rest := by
  have split := List.takeWhile_append_dropWhile (p := test) (l := run ++ rest)
  rw [take] at split
  exact List.append_cancel_left split

/-- The fraction and the power of a spelling are told apart. -/
lemma fractionParts_chars (isWritten : spelling.IsWritten) :
    fractionParts (fractionChars spelling.fraction ++ powerChars spelling.power) =
      (spelling.fraction.getD [], powerChars spelling.power) := by
  have all := isWritten.fraction
  cases fraction : spelling.fraction with
  | none =>
    cases spelling.power with
    | none => rfl
    | some power => rfl
  | some digits =>
    rw [fraction, Option.getD_some] at all
    have take := takeWhile_fraction all spelling.power
    rw [fractionChars, List.cons_append, fractionParts, Option.getD_some, take,
      dropWhile_of_takeWhile take]

/-- **The numeral that is read from a spelling.** -/
lemma ofChars?_chars (isWritten : spelling.IsWritten) :
    Numeral.ofChars? spelling.chars = some spelling.numeral := by
  have take := takeWhile_whole isWritten
  have nonempty : spelling.whole.isEmpty = false := by simpa using isWritten.nonempty
  rw [ofChars?_eq, take, chars, dropWhile_of_takeWhile take, fractionParts_chars isWritten]
  dsimp only
  rw [power?_powerChars, nonempty]
  rfl

/-! ### Scanning -/

/-- The fraction of a spelling is scanned in full. -/
lemma fractionLength_chars (isWritten : spelling.IsWritten) :
    fractionLength (fractionChars spelling.fraction ++ powerChars spelling.power) =
      (fractionChars spelling.fraction).length := by
  have all := isWritten.fraction
  cases fraction : spelling.fraction with
  | none =>
    cases spelling.power with
    | none => rfl
    | some power => rfl
  | some digits =>
    rw [fraction, Option.getD_some] at all
    rw [fractionChars, List.cons_append, fractionLength, takeWhile_fraction all,
      List.length_cons, Nat.add_comm]

/-- The parts of a number are those of its spelling. -/
lemma decimalParts_chars (isWritten : spelling.IsWritten) :
    decimalParts spelling.chars = (spelling.whole.length,
      (fractionChars spelling.fraction).length, (powerChars spelling.power).length, true) := by
  have drop : spelling.chars.drop
      (spelling.whole.length + (fractionChars spelling.fraction).length) =
        powerChars spelling.power := by
    rw [chars, ← List.append_assoc, ← List.length_append, List.drop_left]
  unfold decimalParts
  rw [takeWhile_whole isWritten]
  dsimp only
  rw [show spelling.chars.drop spelling.whole.length = _ from List.drop_left,
    fractionLength_chars isWritten, drop, exponentLength_powerChars]

/-- **A spelling is one token**, the double that its numeral is read as.

**Proof sketch.** A spelling starts with a digit, so a number is scanned, and it is no hexadecimal
one, because a fraction or a power never starts with the mark of those. The whole part, the fraction
and the power are scanned in full (`decimalParts_chars`). As one of the latter two is there, the
token is a double, that of the numeral of the spelling (`ofChars?_chars`). -/
lemma alone (drift : Bool) (isWritten : spelling.IsWritten) :
    Alone drift spelling.chars (.float spelling.numeral.toFloat) := by
  obtain ⟨first, tail, whole⟩ := List.exists_cons_of_ne_nil isWritten.nonempty
  have digit : first.isDigit = true := isWritten.whole first (whole ▸ List.mem_cons_self)
  have split : spelling.chars =
      first :: (tail ++ (fractionChars spelling.fraction ++ powerChars spelling.power)) := by
    rw [chars, whole, List.cons_append]
  -- no spelling goes on with the mark of a hexadecimal number
  have decimal : ¬ (first = '0' ∧
      ((tail ++ (fractionChars spelling.fraction ++ powerChars spelling.power)).head? = some 'x' ∨
        (tail ++ (fractionChars spelling.fraction ++ powerChars spelling.power)).head? =
          some 'X')) := by
    rintro ⟨-, head⟩
    cases tail with
    | cons c tail =>
      have digit : c.isDigit = true := isWritten.whole c (by simp [whole])
      rcases head with head | head <;> obtain rfl := Option.some.inj head <;>
        exact absurd digit (by decide)
    | nil =>
      cases fraction : spelling.fraction with
      | none =>
        cases power : spelling.power <;>
          simp [fraction, power, fractionChars, powerChars] at head
      | some digits => simp [fraction, fractionChars] at head
  have length : spelling.whole.length + (fractionChars spelling.fraction).length +
      (powerChars spelling.power).length = spelling.chars.length := by
    simp [chars, Nat.add_assoc]
  have marked : ¬ ((fractionChars spelling.fraction).length = 0 ∧
      (powerChars spelling.power).length = 0) := by
    rintro ⟨noFraction, noPower⟩
    rcases isWritten.marked with some | some
    · cases fraction : spelling.fraction <;> simp_all [fractionChars]
    · cases power : spelling.power <;> simp_all [powerChars]
  have scan : scanDecimal spelling.chars =
      (.float spelling.numeral.toFloat, spelling.chars.length) := by
    rw [scanDecimal_eq, decimalParts_chars isWritten]
    dsimp only
    rw [length, List.take_length, List.drop_length]
    unfold decimalKind
    dsimp only
    rw [ofChars?_chars isWritten, if_neg (by simp), if_neg (by simp [startsWith]), if_neg, length]
    · rfl
    · rw [Bool.and_eq_true, Bool.and_eq_true, decide_eq_true_eq, decide_eq_true_eq]
      exact fun whole => marked whole.1
  rw [split] at scan ⊢
  refine ⟨gapLength_of_char (isIdentifierChar_of_digit digit), ⟨_, _, rfl, ?_⟩, rfl⟩
  rw [scanToken_digit digit, scanNumber_decimal decimal, scan]
  rfl

end Spelling

/-! ## Written doubles -/

/-- The digits of a number are digits. -/
lemma isDigit_digitChars {n : ℕ} : ∀ c ∈ digitChars n, c.isDigit = true :=
  fun _ mem => Nat.isDigit_of_mem_toDigits (by omega) (by omega) mem

/-- The digits of a number have its value. -/
lemma decimalValue_digitChars (n : ℕ) : Text.decimalValue (digitChars n) = n := by
  rw [decimalValue_eq]
  exact Nat.ofDigitChars_toDigits (by omega) (by omega)

/-- Zeros after the digits multiply the value by a power of ten. -/
lemma decimalValue_append_zeros (digits : List Char) (count : ℕ) :
    Text.decimalValue (digits ++ List.replicate count '0') =
      Text.decimalValue digits * 10 ^ count := by
  induction count with
  | zero => simp
  | succ count ih =>
    have step : Text.decimalValue (digits ++ List.replicate count '0' ++ ['0']) =
        10 * Text.decimalValue (digits ++ List.replicate count '0') := by
      simp [Text.decimalValue]
    rw [List.replicate_succ', ← List.append_assoc, step, ih]
    ring

/-- Zeros before the digits do not change the value. -/
lemma decimalValue_zeros_append (digits : List Char) (count : ℕ) :
    Text.decimalValue (List.replicate count '0' ++ digits) = Text.decimalValue digits := by
  induction count with
  | zero => rfl
  | succ count ih =>
    rw [← ih]
    simp [Text.decimalValue, List.replicate_succ]

namespace Layout

variable {numeral : Numeral}

/-- Some spelling of the value of a numeral has these characters. -/
def Spells (chars : List Char) (numeral : Numeral) : Prop :=
  ∃ spelling : Spelling, spelling.IsWritten ∧ chars = spelling.chars ∧
    spelling.numeral.value = numeral.value

/-- All places of a numeral spell its value.

**Proof sketch.** By where the point stands. If it stands before all digits, zeros are written
between the point and the digits, which do not change the value of the digits. If it stands after
all of them, zeros are written before it, each of which multiplies the value by ten. Otherwise the
digits are split there, and the digits after the point count as the negative exponent. -/
lemma spells_positional (numeral : Numeral) :
    Spells (positional (digitChars numeral.digits)
      (numeral.exponent + (digitChars numeral.digits).length - 1)) numeral := by
  have digits := isDigit_digitChars (n := numeral.digits)
  have value := decimalValue_digitChars numeral.digits
  have some : 0 < (digitChars numeral.digits).length := Nat.length_toDigits_pos
  generalize digitChars numeral.digits = chars at digits value some ⊢
  unfold positional
  split
  · next small =>
    -- all digits stand after the point
    refine ⟨⟨['0'], .some (List.replicate
      (-(numeral.exponent + chars.length - 1) - 1).toNat '0' ++ chars), none⟩, ⟨by simp, by simp,
        ?_, .inl (by simp)⟩,
        by simp [Spelling.chars, Spelling.fractionChars, Spelling.powerChars], ?_⟩
    · intro c mem
      rcases List.mem_append.mp mem with mem | mem
      · rw [(List.mem_replicate.mp mem).2]
        rfl
      · exact digits c mem
    · have zeros : Text.decimalValue (['0'] ++ (List.replicate
          (-(numeral.exponent + chars.length - 1) - 1).toNat '0' ++ chars)) = numeral.digits := by
        rw [← value, ← decimalValue_zeros_append chars
          ((-(numeral.exponent + chars.length - 1) - 1).toNat + 1), List.replicate_succ]
        rfl
      unfold Spelling.numeral Numeral.value
      simp only [Option.getD_some, Option.getD_none]
      rw [zeros, List.length_append, List.length_replicate]
      congr 2
      omega
  · next large =>
    obtain ⟨count, is_count⟩ : ∃ count : ℕ,
        (count : ℤ) = numeral.exponent + chars.length := ⟨_, Int.toNat_of_nonneg (by omega)⟩
    have toNat : (numeral.exponent + chars.length - 1).toNat + 1 = count := by omega
    dsimp only
    rw [toNat]
    by_cases few : chars.length ≤ count
    · -- the point stands after all digits
      rw [List.take_of_length_le few, List.drop_eq_nil_of_le few]
      refine ⟨⟨chars ++ List.replicate (count - chars.length) '0', .some ['0'], none⟩,
        ⟨by simp [List.ne_nil_of_length_pos some], ?_, by simp, .inl (by simp)⟩,
        by simp [Spelling.chars, Spelling.fractionChars, Spelling.powerChars], ?_⟩
      · intro c mem
        rcases List.mem_append.mp mem with mem | mem
        · exact digits c mem
        · rw [(List.mem_replicate.mp mem).2]
          rfl
      · have zeros : Text.decimalValue
            (chars ++ List.replicate (count - chars.length) '0' ++ ['0']) =
              numeral.digits * 10 ^ (count - chars.length + 1) := by
          rw [← value, ← decimalValue_append_zeros, List.replicate_succ', List.append_assoc]
        unfold Spelling.numeral Numeral.value
        simp only [Option.getD_some, Option.getD_none]
        rw [zeros]
        push_cast
        rw [← zpow_natCast, mul_assoc, ← zpow_add₀ (by norm_num)]
        congr 2
        push_cast [List.length_singleton]
        omega
    · -- the point stands among the digits
      have rest : (chars.drop count).isEmpty = false := by simpa using few
      rw [rest, Nat.sub_eq_zero_of_le (by omega), List.replicate_zero, List.append_nil]
      refine ⟨⟨chars.take count, .some (chars.drop count), none⟩, ⟨?_, ?_, ?_, .inl (by simp)⟩,
        by simp [Spelling.chars, Spelling.fractionChars, Spelling.powerChars], ?_⟩
      · refine List.ne_nil_of_length_pos ?_
        rw [List.length_take]
        omega
      · exact fun c mem => digits c (List.mem_of_mem_take mem)
      · exact fun c mem => digits c (List.mem_of_mem_drop mem)
      · unfold Spelling.numeral Numeral.value
        simp only [Option.getD_some, Option.getD_none]
        rw [List.take_append_drop, value, List.length_drop]
        congr 2
        omega

/-- The digits of a numeral with a power of ten spell its value. -/
lemma spells_exponential (numeral : Numeral) :
    Spells (exponential 'e' (digitChars numeral.digits)
      (numeral.exponent + (digitChars numeral.digits).length - 1)) numeral := by
  have digits := isDigit_digitChars (n := numeral.digits)
  have value := decimalValue_digitChars numeral.digits
  have some : 0 < (digitChars numeral.digits).length := Nat.length_toDigits_pos
  generalize digitChars numeral.digits = chars at digits value some ⊢
  obtain ⟨first, rest, rfl⟩ := List.exists_cons_of_length_pos some
  have fraction : ∀ c ∈ (if rest = [] then none else Option.some rest).getD [],
      c.isDigit = true := by
    split
    · simp
    · exact fun c mem => digits c (List.mem_cons_of_mem _ mem)
  refine ⟨⟨[first], if rest = [] then none else .some rest,
    .some (numeral.exponent + (first :: rest).length - 1)⟩,
    ⟨by simp, by simpa using digits first List.mem_cons_self, fraction, .inr (by simp)⟩, ?_, ?_⟩
  · unfold exponential Spelling.chars
    cases rest <;> simp [Spelling.fractionChars, Spelling.powerChars]
  · have parts : (if rest = [] then none else Option.some rest).getD [] = rest := by
      split
      · next empty => rw [empty]; rfl
      · rfl
    unfold Spelling.numeral Numeral.value
    dsimp only
    rw [parts, List.singleton_append, value, Option.getD_some, List.length_cons]
    congr 2
    push_cast
    omega

/-- **A double is spelled with the value of its shortest numeral.** -/
lemma spells_writeMagnitude (layout : Layout) (mark : layout.mark = 'e') (bits : ℕ) :
    Spells (layout.writeMagnitude bits) (shortest bits) := by
  unfold writeMagnitude
  dsimp only
  rw [mark]
  split
  · exact spells_positional _
  · exact spells_exponential _

end Layout

end SqlTree.Decimal
