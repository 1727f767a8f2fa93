import Mathlib.Data.List.TakeWhile
import SqlTree.Proofs.Legible.Piece

set_option autoImplicit false

/-!
# Literals and variables are scanned into their words

Strings and blobs are read up to their closing quotes, and the numbers that are written are those
that their digits stand for. Variables and Dart code are written as they can be read if they have
been read before.

## Main results

* `SqlTree.Literal.alone_integer`, `SqlTree.Literal.alone_string`, `SqlTree.Literal.alone_blob` —
  literals are tokens.
* `SqlTree.Render.legible_variable`, `SqlTree.Render.legible_dart` — variables and Dart code.
-/

namespace SqlTree

/-! ## Numbers -/

section

variable {drift : Bool} {first : Char} {tail : List Char}

/-- The value of decimal digits is that of the library. -/
lemma decimalValue_eq (digits : List Char) :
    Text.decimalValue digits = Nat.ofDigitChars 10 digits 0 := by
  rw [Nat.ofDigitChars_eq_foldl]
  rfl

/-- A digit starts a number. -/
lemma scanToken_digit (digit : first.isDigit = true) (rest : List Char) :
    scanToken drift first rest = scanNumber first rest := by
  have char := isIdentifierChar_of_digit digit
  have plain : first ∉ marks := by
    intro mem
    unfold marks at mem
    simp only [List.mem_cons, List.not_mem_nil, or_false] at mem
    rcases mem with rfl | rfl | rfl | rfl | rfl | rfl | rfl | rfl | rfl | rfl <;>
      exact absurd digit (by decide)
  have noBlob : ¬ (first = 'x' ∨ first = 'X') := by
    rintro (rfl | rfl) <;> exact absurd digit (by decide)
  rw [scanToken_plain _ (single_of_char char) plain, scanPlain, if_neg (fun both => noBlob both.1),
    scanToken.scanOther, if_pos digit]

/-- A run of digits is scanned as the integer that they stand for, if it fits. -/
lemma scanToken_digits {first : Char} {tail : List Char}
    (all : ∀ c ∈ first :: tail, c.isDigit = true)
    (fits : Text.decimalValue (first :: tail) < 0x8000000000000000) :
    scanToken drift first tail =
      ⟨.integer (Int64.ofNat (Text.decimalValue (first :: tail))), tail.length⟩ := by
  have decimal : ¬ (first = '0' ∧ (tail.head? = some 'x' ∨ tail.head? = some 'X')) := by
    rintro ⟨-, head | head⟩ <;>
      exact absurd (all _ (List.mem_cons_of_mem _ (List.mem_of_head? head))) (by decide)
  have parts : decimalParts (first :: tail) = ((first :: tail).length, 0, 0, true) := by
    have run : (first :: tail).takeWhile Char.isDigit = first :: tail :=
      List.takeWhile_eq_self_iff.mpr all
    unfold decimalParts
    simp only [run, List.drop_length, fractionLength, Nat.add_zero, exponentLength]
  rw [scanToken_digit (all _ List.mem_cons_self), scanNumber_decimal decimal, scanDecimal_eq, parts]
  simp [decimalKind, startsWith, fits]

end

/-! ## Text in quotes without doubling -/

/-- Text without the closing quote is scanned up to it. -/
lemma scanQuotedToken_plain {close : Char} (make : List Char → TokenKind) (error : LexicalError)
    {chars : List Char} (rest : List Char) (others : ∀ c ∈ chars, c ≠ close) :
    scanQuotedToken close false error make (chars ++ close :: rest) =
      ⟨make chars, chars.length + 1⟩ := by
  have found :
      scanQuoted close false (chars ++ close :: rest) = some (chars, chars.length + 1) := by
    induction chars with
    | nil => exact scanQuoted_closes fun doubling => nomatch doubling
    | cons c chars ih =>
      rw [List.cons_append, scanQuoted_inside (others c List.mem_cons_self),
        ih fun c mem => others c (List.mem_cons_of_mem _ mem)]
      rfl
  rw [scanQuotedToken, found]

/-! ## Hexadecimal digits -/

/-- Each hexadecimal digit has its value. -/
lemma hexDigit_spec : ∀ value < 16, Text.hexDigitValue? (Text.hexDigit value) = some value := by
  decide

/-- What a value below sixteen is written as is a hexadecimal digit. -/
lemma isHexDigit_hexDigit {value : Nat} (small : value < 16) :
    Text.isHexDigit (Text.hexDigit value) = true := by
  rw [Text.isHexDigit, hexDigit_spec value small]
  rfl

/-- The digits that a number is written with in upper case. -/
lemma toUpper_digitChar : ∀ digit < 16, (Nat.digitChar digit).toUpper = Text.hexDigit digit := by
  decide

/-- The value of hexadecimal digits with one more after them. -/
lemma hexValue_append (digits : List Char) (c : Char) :
    Text.hexValue (digits ++ [c]) =
      16 * Text.hexValue digits + (Text.hexDigitValue? c).getD 0 := by
  simp [Text.hexValue]

/-- The hexadecimal digits of a number stand for it. -/
lemma upper_toDigits (n : Nat) :
    (∀ c ∈ (Nat.toDigits 16 n).map Char.toUpper, Text.isHexDigit c = true) ∧
      Text.hexValue ((Nat.toDigits 16 n).map Char.toUpper) = n := by
  induction n using Nat.strongRecOn with
  | ind n ih =>
    rcases Nat.lt_or_ge n 16 with small | large
    · rw [Nat.toDigits_of_lt_base small, List.map_singleton, toUpper_digitChar n small]
      refine ⟨by simpa using isHexDigit_hexDigit small, ?_⟩
      simp [Text.hexValue, hexDigit_spec n small]
    · have last : n % 16 < 16 := Nat.mod_lt _ (by omega)
      obtain ⟨digits, value⟩ := ih (n / 16) (by omega)
      rw [Nat.toDigits_of_base_le (by omega) large, List.map_append, List.map_singleton,
        toUpper_digitChar _ last]
      refine ⟨fun c mem => ?_, ?_⟩
      · rcases List.mem_append.mp mem with mem | mem
        · exact digits c mem
        · obtain rfl := List.mem_singleton.mp mem
          exact isHexDigit_hexDigit last
      · rw [hexValue_append, value, hexDigit_spec _ last, Option.getD_some]
        omega

namespace Literal

variable {drift : Bool}

/-- Negative integers are written as the words of their bits. -/
lemma alone_negative {value : Int64} (negative : value < 0) :
    Alone drift (integerText value).toList (.integer value) := by
  obtain ⟨all, is_value⟩ := upper_toDigits value.toUInt64.toNat
  have some : ((Nat.toDigits 16 value.toUInt64.toNat).map Char.toUpper).isEmpty = false := by
    simp
  have toList : (integerText value).toList =
      '0' :: 'x' :: (Nat.toDigits 16 value.toUInt64.toNat).map Char.toUpper := by
    simp [integerText, negative]
  rw [toList]
  generalize (Nat.toDigits 16 value.toUInt64.toNat).map Char.toUpper = digits at all is_value some
  have run : digits.takeWhile Text.isHexDigit = digits := List.takeWhile_eq_self_iff.mpr all
  have fits : Text.hexValue digits < 0x10000000000000000 := by
    rw [is_value]
    exact value.toUInt64.toNat_lt
  refine ⟨gapLength_of_char rfl, ⟨_, _, rfl, ?_⟩, rfl⟩
  rw [scanToken_digit rfl, scanNumber_hex (.inl rfl)]
  have small : value.toUInt64.toNat < 18446744073709551616 := is_value ▸ fits
  simp [scanHex, run, startsWith, some, is_value, small]

/-- An integer is scanned as itself.

**Proof sketch.** A negative one is written with sixteen hexadecimal digits (`alone_negative`). Any
other is written with its decimal digits, of which there is at least one. Their value is the number,
which is small enough for an integer. -/
lemma alone_integer (value : Int64) : Alone drift (integerText value).toList (.integer value) := by
  by_cases negative : value < 0
  · exact alone_negative negative
  · obtain ⟨n, is_n⟩ := Int.eq_ofNat_of_zero_le (a := value.toInt) (by
      rw [Int64.lt_iff_toInt_lt] at negative
      simpa using negative)
    have toList : (integerText value).toList = Nat.toDigits 10 n := by
      rw [integerText, if_neg negative, is_n]
      change (toString n).toList = _
      rw [Nat.toString_eq_ofList_toDigits, String.toList_ofList]
    have all : ∀ c ∈ Nat.toDigits 10 n, c.isDigit = true :=
      fun c mem => Nat.isDigit_of_mem_toDigits (by omega) (by omega) mem
    have is_value : Text.decimalValue (Nat.toDigits 10 n) = n := by
      rw [decimalValue_eq, Nat.ofDigitChars_toDigits (by omega) (by omega)]
    have fits : n < 0x8000000000000000 := by
      have := value.toInt_lt
      omega
    obtain ⟨first, tail, digits⟩ :=
      List.exists_cons_of_ne_nil (Nat.toDigits_ne_nil (n := n) (b := 10))
    rw [toList, digits]
    rw [digits] at all is_value
    refine ⟨gapLength_of_char (isIdentifierChar_of_digit (all _ List.mem_cons_self)),
      ⟨_, _, rfl, ?_⟩, rfl⟩
    rw [scanToken_digits all (by rwa [is_value]), is_value]
    have same : Int64.ofNat n = value := by
      rw [← Int64.ofInt_toInt value, is_n]
      rfl
    rw [same]

/-! ## Strings and blobs -/

/-- A string is scanned as itself, as its quotes are doubled. -/
lemma alone_string (value : String) :
    Alone drift (String.ofList (Text.quoted '\'' value.toList)).toList (.string value) := by
  have ends : ([] : List Char).head? ≠ some '\'' := by simp
  have scan := scanQuotedToken_quoted (fun chars => .string (String.ofList chars))
    .unterminatedString value.toList ends
  rw [List.append_nil, String.ofList_toList] at scan
  rw [String.toList_ofList]
  exact ⟨rfl, ⟨_, _, rfl, scan⟩, rfl⟩

/-- A byte is written with two hexadecimal digits that have its value. -/
lemma byteDigits_spec (byte : UInt8) :
    ∃ high low, byteDigits byte = [high, low] ∧ Text.isHexDigit high = true ∧
      Text.isHexDigit low = true ∧ UInt8.ofNat (Text.hexValue [high, low]) = byte := by
  have small := byte.toNat_lt
  have high : byte.toNat / 16 < 16 := by omega
  have low : byte.toNat % 16 < 16 := Nat.mod_lt _ (by omega)
  refine ⟨_, _, rfl, isHexDigit_hexDigit high, isHexDigit_hexDigit low, ?_⟩
  have value : Text.hexValue [Text.hexDigit (byte.toNat / 16), Text.hexDigit (byte.toNat % 16)] =
      byte.toNat := by
    simp only [Text.hexValue, List.foldl_cons, List.foldl_nil, hexDigit_spec _ high,
      hexDigit_spec _ low, Option.getD_some]
    omega
  rw [value, UInt8.ofNat_toNat]

/-- The digits of a blob stand for its bytes. -/
lemma blobKind_digits (bytes : List UInt8) : blobKind (bytes.flatMap byteDigits) = .blob bytes := by
  have spec : (∀ c ∈ bytes.flatMap byteDigits, Text.isHexDigit c = true) ∧
      (bytes.flatMap byteDigits).length % 2 = 0 ∧ blobBytes (bytes.flatMap byteDigits) = bytes := by
    induction bytes with
    | nil => simp [blobBytes]
    | cons byte bytes ih =>
      obtain ⟨digits, even, same⟩ := ih
      obtain ⟨high, low, eq, isHigh, isLow, value⟩ := byteDigits_spec byte
      rw [List.flatMap_cons, eq, List.cons_append, List.singleton_append]
      refine ⟨?_, ?_, ?_⟩
      · simpa [isHigh, isLow] using digits
      · simp only [List.length_cons]
        omega
      · rw [blobBytes, value, same]
  obtain ⟨digits, even, same⟩ := spec
  unfold blobKind
  rw [if_neg (by rw [List.all_eq_true.mpr digits]; simp), if_neg (not_not.mpr even), same]

/-- A blob is scanned as itself, as each byte has two digits. -/
lemma alone_blob (bytes : List UInt8) : Alone drift (text (.blob bytes)).toList (.blob bytes) := by
  have toList : (text (.blob bytes)).toList =
      'X' :: '\'' :: (bytes.flatMap byteDigits ++ ['\'']) := by
    rw [text, String.toList_ofList]
    rfl
  have others : ∀ c ∈ bytes.flatMap byteDigits, c ≠ '\'' := by
    rintro c mem rfl
    obtain ⟨byte, -, mem⟩ := List.mem_flatMap.mp mem
    obtain ⟨high, low, eq, isHigh, isLow, -⟩ := byteDigits_spec byte
    rw [eq, List.mem_cons, List.mem_singleton] at mem
    rcases mem with rfl | rfl
    · exact absurd isHigh (by decide)
    · exact absurd isLow (by decide)
  rw [toList]
  refine ⟨gapLength_of_char (by decide), ⟨_, _, rfl, ?_⟩, rfl⟩
  have single : single 'X' = none := by decide
  rw [scanToken_plain _ single (by decide), scanPlain, if_pos ⟨.inr rfl, rfl⟩, List.tail_cons,
    scanQuotedToken_plain _ _ _ others, blobKind_digits]
  simp

/-! ## Literals -/

/-- Bare letters are a token. -/
lemma alone_word {text : String} (nonempty : text.toList ≠ [])
    (starts : ∀ c ∈ text.toList, isIdentifierStart c = true) :
    Alone drift text.toList (.ofWord text) := by
  obtain ⟨first, tail, toList⟩ := List.exists_cons_of_ne_nil nonempty
  rw [toList] at starts
  have start := starts _ List.mem_cons_self
  have all : ∀ c ∈ tail, isIdentifierChar c = true :=
    fun c mem => isIdentifierChar_of_start (starts c (List.mem_cons_of_mem _ mem))
  have scan : scanToken drift first (tail ++ []) = _ := scanToken_word start all (by simp)
  rw [List.append_nil, ← toList, String.ofList_toList] at scan
  refine ⟨by rw [toList]; exact gapLength_of_char (isIdentifierChar_of_start start),
    ⟨first, tail, toList, scan⟩, ?_⟩
  unfold TokenKind.ofWord
  split <;> rfl

/-- What spells a keyword is that keyword. -/
lemma alone_keyword {text : String} {word : Keyword} (found : Keyword.ofText? text = some word) :
    Alone drift text.toList (.keyword word) := by
  obtain ⟨nonempty, starts⟩ := Keyword.starts_of_ofText? found
  have alone : Alone drift text.toList (.ofWord text) := alone_word nonempty starts
  rwa [TokenKind.ofWord, found] at alone

/-- A literal is scanned as itself; for floating-point numbers this has to be known. -/
lemma alone {value : Literal} (reads : ∀ number, value = .float number →
    Alone drift (floatText number).toList (.float number)) :
    Alone drift value.text.toList value.kind := by
  cases value with
  | integer value => exact alone_integer value
  | float number => exact reads number rfl
  | string value => exact alone_string value
  | blob bytes => exact alone_blob bytes
  | boolean value =>
    cases value with
    | false => exact alone_keyword Keyword.FALSE.ofText?_text
    | true => exact alone_keyword Keyword.TRUE.ofText?_text
  | null => exact alone_keyword Keyword.NULL.ofText?_text
  | currentTime => exact alone_keyword Keyword.CURRENT_TIME.ofText?_text
  | currentDate => exact alone_keyword Keyword.CURRENT_DATE.ofText?_text
  | currentTimestamp => exact alone_keyword Keyword.CURRENT_TIMESTAMP.ofText?_text

end Literal

/-! ## Variables -/

/-- The variable can be written: its number is not too large, and its name is a name. -/
def Variable.IsWritten : Variable → Prop
  | .anonymous => True
  | .numbered index => 0 < index ∧ index < 0x100000000
  | .named _ name => name.toList ≠ [] ∧ ∀ c ∈ name.toList, isIdentifierChar c = true

/-- What ends a name is no digit. -/
lemma EndsName.not_digit {c : Char} (ends : EndsName c) : c.isDigit = false := by
  rw [← Bool.not_eq_true]
  intro digit
  exact absurd (ends.word.symm.trans (isIdentifierChar_of_digit digit)) Bool.false_ne_true

namespace Render

variable {drift : Bool}

/-- A sigil and a name are scanned as the variable of that name. -/
lemma scanToken_sigil (sigil : Sigil) {name rest : List Char} (nonempty : name ≠ [])
    (all : ∀ c ∈ name, isIdentifierChar c = true) (ends : ∀ c ∈ rest.head?, EndsName c) :
    scanToken drift sigil.char (name ++ rest) =
      ⟨.variable (.named sigil (String.ofList name)), name.length⟩ := by
  have run : (name ++ rest).takeWhile isIdentifierChar = name :=
    takeWhile_append_of_ends all fun c head => (ends c head).word
  have named (alone : TokenKind) : scanNamed sigil alone (name ++ rest) =
      ⟨.variable (.named sigil (String.ofList name)), name.length⟩ := by
    unfold scanNamed
    rw [run]
    exact if_neg (by simpa using nonempty)
  cases sigil <;> exact named _

/-- A variable is scanned as itself.

**Proof sketch.** By the form of the variable. A question mark alone is followed by no digit,
because what ends a name is none. With a number after it, the digits are scanned to their end, and
their value is in range. A named variable is scanned up to the end of its name
(`scanToken_sigil`). -/
lemma legible_variable {which : Variable} (isWritten : which.IsWritten) :
    LegibleBefore drift EndsName [.variable which] := by
  cases which with
  | anonymous =>
    have toList : (Piece.variable .anonymous).text.toList = ['?'] := rfl
    refine legible_of_scan toList rfl fun rest ends =>
      ⟨by rw [gapLength_eq_zero_iff]; exact ⟨rfl, by simp, by simp⟩, ?_⟩
    have run : ([] ++ rest).takeWhile Char.isDigit = [] :=
      takeWhile_append_of_ends (by simp) fun c head => (ends c head).not_digit
    change scanQuestion ([] ++ rest) = _
    unfold scanQuestion
    rw [run]
    rfl
  | numbered index =>
    have toList :
        (Piece.variable (.numbered index)).text.toList = '?' :: Nat.toDigits 10 index := by
      simp [Piece.text, Variable.text]
    have value : Text.decimalValue (Nat.toDigits 10 index) = index := by
      rw [decimalValue_eq, Nat.ofDigitChars_toDigits (by omega) (by omega)]
    refine legible_of_scan toList rfl fun rest ends =>
      ⟨by rw [gapLength_eq_zero_iff]; exact ⟨rfl, by simp, by simp⟩, ?_⟩
    have run : (Nat.toDigits 10 index ++ rest).takeWhile Char.isDigit = Nat.toDigits 10 index :=
      takeWhile_append_of_ends (fun c mem => Nat.isDigit_of_mem_toDigits (by omega) (by omega) mem)
        fun c head => (ends c head).not_digit
    change scanQuestion _ = _
    unfold scanQuestion
    rw [run]
    dsimp only
    rw [value, if_neg (by simp), if_pos (by simpa [Variable.IsWritten] using isWritten)]
  | named sigil name =>
    have toList : (Piece.variable (.named sigil name)).text.toList = sigil.char :: name.toList := by
      simp [Piece.text, Variable.text]
    refine legible_of_scan toList rfl fun rest ends => ⟨?_, ?_⟩
    · rw [gapLength_eq_zero_iff]
      cases sigil <;> exact ⟨rfl, by simp [Sigil.char], by simp [Sigil.char]⟩
    · rw [scanToken_sigil sigil isWritten.1 isWritten.2 ends, String.ofList_toList]

/-! ## Dart code -/

/-- Dart code without backticks is scanned as itself with the drift extensions. -/
lemma legible_dart {code : String} (others : '\x60' ∉ code.toList) :
    LegibleBefore true (fun _ => True) [.dart code] := by
  have toList : (Piece.dart code).text.toList = '\x60' :: (code.toList ++ ['\x60']) := by
    simp [Piece.text]
  refine legible_of_scan toList rfl fun rest _ => ⟨?_, ?_⟩
  · rw [gapLength_eq_zero_iff]
    exact ⟨rfl, by simp, by simp⟩
  · have scan := scanQuotedToken_plain (fun code => .inlineDart (String.ofList code))
      .unterminatedDart rest fun c mem (same : c = '\x60') => others (same ▸ mem)
    rw [String.ofList_toList] at scan
    rw [List.append_assoc, List.singleton_append, List.length_append]
    exact scan

end Render

end SqlTree
