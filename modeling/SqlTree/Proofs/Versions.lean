import Mathlib.Data.Prod.Lex
import SqlTree.Proofs.Features
import SqlTree.Proofs.Legible.Literal

set_option autoImplicit false

/-!
# The text and the order of releases

A release is read from exactly those texts that spell two or three numbers with dots between them,
perhaps between blanks. Each number is written in decimal digits, perhaps after a plus sign, and has
16 bits. The text that a release is written as spells it, and releases are ordered by their three
numbers, the first of which counts most.

## Main definitions

* `SqlTree.Version.IsNumber`, `SqlTree.Version.IsRelease` — how numbers and releases are written.
* `SqlTree.Version.Spells` — a text spells a release.
* `SqlTree.Version.key` — the numbers of a release in lexicographic order.

## Main results

* `SqlTree.Version.ofChars?_eq_some_iff` — a release is read from the texts that spell it.
* `SqlTree.Version.parse_exact` — reading, writing and comparing releases.
-/

namespace SqlTree

/-! ## Trimmed text -/

namespace Text

variable {before core after : List Char}

/-- Only blanks are taken off. -/
lemma exists_trim (chars : List Char) :
    ∃ before after, chars = before ++ trim chars ++ after ∧
      (∀ c ∈ before, isBlank c = true) ∧ ∀ c ∈ after, isBlank c = true := by
  refine ⟨chars.takeWhile isBlank,
    ((chars.dropWhile isBlank).reverse.takeWhile isBlank).reverse, ?_, ?_, ?_⟩
  · unfold trim
    rw [List.append_assoc, ← List.reverse_append, List.takeWhile_append_dropWhile,
      List.reverse_reverse, List.takeWhile_append_dropWhile]
  · exact fun c mem => List.mem_takeWhile_imp mem
  · exact fun c mem => List.mem_takeWhile_imp (List.mem_reverse.mp mem)

/-- All blanks around a text without blanks are taken off. -/
lemma trim_append (blankBefore : ∀ c ∈ before, isBlank c = true)
    (blankAfter : ∀ c ∈ after, isBlank c = true) (solid : ∀ c ∈ core, isBlank c = false) :
    trim (before ++ core ++ after) = core := by
  have unchanged {chars : List Char} (solid : ∀ c ∈ chars, isBlank c = false) :
      chars.dropWhile isBlank = chars := by
    cases chars with
    | nil => rfl
    | cons c rest => rw [List.dropWhile_cons_of_neg (by simp [solid c List.mem_cons_self])]
  have fromEnd : (core ++ after).reverse.dropWhile isBlank = core.reverse := by
    rw [List.reverse_append,
      List.dropWhile_append_of_pos fun c mem => blankAfter c (List.mem_reverse.mp mem),
      unchanged fun c mem => solid c (List.mem_reverse.mp mem)]
  unfold trim
  rw [List.append_assoc, List.dropWhile_append_of_pos blankBefore]
  cases core with
  | nil =>
    have none : after.dropWhile isBlank = [] := List.dropWhile_eq_nil_iff.mpr blankAfter
    rw [List.nil_append, none]
    rfl
  | cons c rest =>
    have stays : (c :: rest ++ after).dropWhile isBlank = c :: rest ++ after :=
      List.dropWhile_cons_of_neg (by simp [solid c List.mem_cons_self])
    rw [stays, fromEnd, List.reverse_reverse]

end Text

namespace Version

/-! ## Numbers -/

/-- A number of 16 bits in decimal digits, perhaps after a plus sign. -/
def IsNumber (chars : List Char) (value : UInt16) : Prop :=
  ∃ sign digits, chars = sign ++ digits ∧ (sign = [] ∨ sign = ['+']) ∧ digits ≠ [] ∧
    (∀ c ∈ digits, c.isDigit = true) ∧ Nat.ofDigitChars 10 digits 0 = value.toNat

/-- The number that is written by digits, if it has 16 bits. -/
def unsigned? (digits : List Char) : Option UInt16 :=
  if !digits.isEmpty && digits.all Char.isDigit && Text.decimalValue digits < 0x10000 then
    some (UInt16.ofNat (Text.decimalValue digits))
  else
    none

/-- Digits without a plus sign are read as they are. -/
lemma number?_of_unsigned {chars : List Char} (unsigned : ∀ rest, chars ≠ '+' :: rest) :
    number? chars = unsigned? chars := by
  unfold number?
  dsimp only
  split
  · exact absurd rfl (unsigned _)
  · rfl

/-- Digits are read as the number that they spell, if it is small enough. -/
lemma unsigned?_eq_some_iff {digits : List Char} {value : UInt16} :
    unsigned? digits = some value ↔ digits ≠ [] ∧ (∀ c ∈ digits, c.isDigit = true) ∧
      Nat.ofDigitChars 10 digits 0 = value.toNat := by
  rw [← decimalValue_eq]
  unfold unsigned?
  constructor
  · intro found
    split at found
    · next fits =>
      simp only [Bool.and_eq_true, Bool.not_eq_true', List.isEmpty_eq_false_iff, List.all_eq_true,
        decide_eq_true_eq] at fits
      obtain rfl := Option.some.inj found
      exact ⟨fits.1.1, fits.1.2, (UInt16.toNat_ofNat_of_lt' fits.2).symm⟩
    · cases found
  · rintro ⟨nonempty, all, eq⟩
    have fits : Text.decimalValue digits < 0x10000 := eq ▸ value.toNat_lt
    rw [if_pos (by simpa [nonempty, fits] using all), eq, UInt16.ofNat_toNat]

/-- A number is read from the texts that spell it. -/
lemma number?_eq_some_iff {chars : List Char} {value : UInt16} :
    number? chars = some value ↔ IsNumber chars value := by
  constructor
  · intro found
    by_cases signed : ∃ rest, chars = '+' :: rest
    · obtain ⟨rest, rfl⟩ := signed
      obtain ⟨nonempty, all, eq⟩ := unsigned?_eq_some_iff.mp found
      exact ⟨['+'], rest, rfl, .inr rfl, nonempty, all, eq⟩
    · rw [number?_of_unsigned (not_exists.mp signed)] at found
      obtain ⟨nonempty, all, eq⟩ := unsigned?_eq_some_iff.mp found
      exact ⟨[], chars, rfl, .inl rfl, nonempty, all, eq⟩
  · rintro ⟨sign, digits, rfl, rfl | rfl, nonempty, all, eq⟩
    · rw [List.nil_append, number?_of_unsigned]
      · exact unsigned?_eq_some_iff.mpr ⟨nonempty, all, eq⟩
      · -- a plus sign is no digit
        rintro rest rfl
        exact absurd (all '+' List.mem_cons_self) (by decide)
    · exact unsigned?_eq_some_iff.mpr ⟨nonempty, all, eq⟩

/-- A number is written without dots and blanks. -/
lemma IsNumber.plain {chars : List Char} {value : UInt16} (is_number : IsNumber chars value) :
    ∀ c ∈ chars, c ≠ '.' ∧ Text.isBlank c = false := by
  obtain ⟨sign, digits, rfl, signs, -, all, -⟩ := is_number
  intro c mem
  rcases List.mem_append.mp mem with inSign | inDigits
  · rcases signs with rfl | rfl
    · cases inSign
    · obtain rfl := List.mem_singleton.mp inSign
      exact ⟨by decide, by decide⟩
  · have digit := all c inDigits
    refine ⟨?_, ?_⟩
    · rintro rfl
      exact absurd digit (by decide)
    · by_contra blank
      have inert := (inert_of_blank (by simpa using blank)).1
      exact absurd (inert.symm.trans (isIdentifierChar_of_digit digit)) Bool.false_ne_true

/-- A number is written in its decimal digits. -/
lemma isNumber_toString (value : UInt16) : IsNumber (toString value.toNat).toList value := by
  rw [Nat.toString_eq_ofList_toDigits, String.toList_ofList]
  exact ⟨[], _, rfl, .inl rfl, Nat.toDigits_ne_nil,
    fun c mem => Nat.isDigit_of_mem_toDigits (by omega) (by omega) mem,
    Nat.ofDigitChars_toDigits (by omega) (by omega)⟩

/-! ## Releases -/

/-- A release is written as two or three numbers with dots between them; a missing patch is zero. -/
inductive IsRelease : List Char → Version → Prop where
  | two {a b : List Char} {major minor : UInt16} (first : IsNumber a major)
    (second : IsNumber b minor) : IsRelease (a ++ '.' :: b) ⟨major, minor, 0⟩
  | three {a b c : List Char} {major minor patch : UInt16} (first : IsNumber a major)
    (second : IsNumber b minor) (third : IsNumber c patch) :
    IsRelease (a ++ '.' :: (b ++ '.' :: c)) ⟨major, minor, patch⟩

/-- The characters spell a release, perhaps with blanks at both ends. -/
def Spells (chars : List Char) (version : Version) : Prop :=
  ∃ before core after, chars = before ++ core ++ after ∧
    (∀ c ∈ before, Text.isBlank c = true) ∧ (∀ c ∈ after, Text.isBlank c = true) ∧
    IsRelease core version

/-- The text of a release has no blanks. -/
lemma IsRelease.solid {chars : List Char} {version : Version} (release : IsRelease chars version) :
    ∀ c ∈ chars, Text.isBlank c = false := by
  have dot : Text.isBlank '.' = false := by decide
  intro c mem
  cases release with
  | two first second =>
    simp only [List.mem_append, List.mem_cons] at mem
    rcases mem with mem | rfl | mem
    exacts [(first.plain c mem).2, dot, (second.plain c mem).2]
  | three first second third =>
    simp only [List.mem_append, List.mem_cons] at mem
    rcases mem with mem | rfl | mem | rfl | mem
    exacts [(first.plain c mem).2, dot, (second.plain c mem).2, dot, (third.plain c mem).2]

/-- A text is split at its dots as by the library. -/
lemma splitDots_eq (chars : List Char) : splitDots chars = chars.splitOn '.' := by
  induction chars with
  | nil => rfl
  | cons c rest ih =>
    obtain ⟨part, parts, eq⟩ := List.exists_cons_of_ne_nil (List.splitOnP_ne_nil (· == '.') rest)
    have eq : rest.splitOn '.' = part :: parts := eq
    rw [splitDots, ih, eq]
    change _ = (c :: rest).splitOnP (· == '.')
    rw [List.splitOnP_cons_eq_if_modifyHead]
    change _ = if (c == '.') = true then [] :: rest.splitOn '.' else
      (rest.splitOn '.').modifyHead (List.cons c)
    rw [eq]
    simp

/-- The parts between dots are those that the dots were put between. -/
lemma splitDots_eq_iff {chars : List Char} {parts : List (List Char)} (nonempty : parts ≠ [])
    (plain : ∀ part ∈ parts, '.' ∉ part) :
    splitDots chars = parts ↔ chars = ['.'].intercalate parts := by
  rw [splitDots_eq]
  constructor
  · rintro rfl
    rw [List.intercalate_splitOn]
  · rintro rfl
    exact List.splitOn_intercalate '.' plain nonempty

/-- **A release is read from the texts that spell it.**

**Proof sketch.** A text is its trimmed part between blanks (`Text.exists_trim`), and this part is
its pieces with dots between them. If the text is read, there are two or three pieces, each of which
spells its number (`number?_eq_some_iff`). If it spells a release, trimming leaves the release,
because that has no blanks (`IsRelease.solid`), and splitting it at the dots gives the numbers. -/
lemma ofChars?_eq_some_iff {chars : List Char} {version : Version} :
    ofChars? chars = some version ↔ Spells chars version := by
  have joined (chars : List Char) : ['.'].intercalate (splitDots chars) = chars := by
    rw [splitDots_eq, List.intercalate_splitOn]
  constructor
  · intro found
    obtain ⟨before, after, eq, blankBefore, blankAfter⟩ := Text.exists_trim chars
    refine ⟨before, _, after, eq, blankBefore, blankAfter, ?_⟩
    rw [← joined (Text.trim chars)]
    unfold ofChars? at found
    split at found
    · next a b parts =>
      rw [parts]
      obtain ⟨major, first, found⟩ := Option.bind_eq_some_iff.mp found
      obtain ⟨minor, second, found⟩ := Option.bind_eq_some_iff.mp found
      obtain rfl := Option.some.inj found
      simpa using IsRelease.two (number?_eq_some_iff.mp first) (number?_eq_some_iff.mp second)
    · next a b c parts =>
      rw [parts]
      obtain ⟨major, first, found⟩ := Option.bind_eq_some_iff.mp found
      obtain ⟨minor, second, found⟩ := Option.bind_eq_some_iff.mp found
      obtain ⟨patch, third, found⟩ := Option.bind_eq_some_iff.mp found
      obtain rfl := Option.some.inj found
      simpa using IsRelease.three (number?_eq_some_iff.mp first) (number?_eq_some_iff.mp second)
        (number?_eq_some_iff.mp third)
    · cases found
  · rintro ⟨before, core, after, rfl, blankBefore, blankAfter, release⟩
    unfold ofChars?
    rw [Text.trim_append blankBefore blankAfter release.solid]
    cases release with
    | @two a b major minor first second =>
      have parts : splitDots (a ++ '.' :: b) = [a, b] :=
        (splitDots_eq_iff (by simp) (by
          simpa using ⟨fun mem => (first.plain _ mem).1 rfl,
            fun mem => (second.plain _ mem).1 rfl⟩)).mpr (by simp)
      rw [parts]
      simp [number?_eq_some_iff.mpr first, number?_eq_some_iff.mpr second]
    | @three a b c major minor patch first second third =>
      have parts : splitDots (a ++ '.' :: (b ++ '.' :: c)) = [a, b, c] :=
        (splitDots_eq_iff (by simp) (by
          simpa using ⟨fun mem => (first.plain _ mem).1 rfl,
            fun mem => (second.plain _ mem).1 rfl,
            fun mem => (third.plain _ mem).1 rfl⟩)).mpr (by simp)
      rw [parts]
      simp [number?_eq_some_iff.mpr first, number?_eq_some_iff.mpr second,
        number?_eq_some_iff.mpr third]

/-- The text of a release spells it. -/
lemma spells_render (version : Version) : Spells version.render.toList version := by
  refine ⟨[], version.render.toList, [], by simp, by simp, by simp, ?_⟩
  have three := IsRelease.three (isNumber_toString version.major) (isNumber_toString version.minor)
    (isNumber_toString version.patch)
  simpa [render] using three

/-! ## The order of releases -/

/-- The numbers of a release in lexicographic order. -/
def key (version : Version) : ℕ ×ₗ ℕ ×ₗ ℕ :=
  toLex (version.major.toNat, toLex (version.minor.toNat, version.patch.toNat))

/-- A version is determined by its parts. -/
lemma key_injective : Function.Injective key := by
  intro a b eq
  have eq : (a.major.toNat, a.minor.toNat, a.patch.toNat) =
      (b.major.toNat, b.minor.toNat, b.patch.toNat) := eq
  cases a
  cases b
  simpa [UInt16.toNat_inj] using eq

/-- Releases are compared by their keys. -/
lemma compare_eq (a b : Version) : a.compare b = Ord.compare a.key b.key :=
  rfl

/-- **Reading, writing and comparing releases.** A release is read from exactly the texts that spell
it, and any other text is kept in the error. The text of a release is read as that release. Releases
are in the lexicographic order of their numbers, which is total, and `atLeast` tells whether a
release is not before the one with the given numbers and patch zero. -/
theorem parse_exact :
    (∀ text version, parse text = .ok version ↔ Spells text.toList version) ∧
    (∀ text, parse text = .error ⟨text⟩ ↔ ¬ ∃ version, Spells text.toList version) ∧
    (∀ version, parse version.render = .ok version) ∧
    (∀ a b : Version, (a.compare b = .lt ↔ a.key < b.key) ∧ (a.compare b = .eq ↔ a = b) ∧
      (a.compare b = .gt ↔ b.key < a.key)) ∧
    ∀ (version : Version) (major minor : UInt16),
      version.atLeast major minor = true ↔ key ⟨major, minor, 0⟩ ≤ version.key := by
  have reads (text : String) (version : Version) :
      parse text = .ok version ↔ Spells text.toList version := by
    rw [← ofChars?_eq_some_iff]
    unfold parse
    split <;> simp_all
  refine ⟨reads, fun text => ?_, fun version => (reads _ _).mpr (spells_render version),
    fun a b => ?_, fun version major minor => ?_⟩
  · simp only [← ofChars?_eq_some_iff]
    unfold parse
    split <;> simp_all
  · rw [compare_eq]
    exact ⟨compare_lt_iff_lt, compare_eq_iff_eq.trans key_injective.eq_iff, compare_gt_iff_gt⟩
  · rw [atLeast_iff, IsFrom, compare_eq, Ordering.isGE_iff_ne_lt]
    exact (not_congr compare_lt_iff_lt).trans not_lt

/-- The signs, the zeros and the blanks around a release do not count. -/
example : parse " \t+3.007.12\n" = .ok ⟨3, 7, 12⟩ := by decide

end Version

end SqlTree
