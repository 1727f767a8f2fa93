import SqlTree.Text.CharTable

set_option autoImplicit false

/-!
# Classes of characters

The letters, digits and blanks of source text. Below `U+0080` a class is decided directly; above,
letters and numbers are looked up in the ranges of `SqlTree.Text.CharTable`.

## Main definitions

* `SqlTree.Text.isAlphabetic` — the property `Alphabetic`.
* `SqlTree.Text.isAlphanumeric` — `Alphabetic`, or a number of any kind.
* `SqlTree.Text.isBlank` — the property `White_Space`.
* `SqlTree.Text.isHexDigit`, `SqlTree.Text.hexDigitValue?` — hexadecimal digits in either case.
-/

namespace SqlTree.Text

/-- Whether some closed range of the list holds the code point. -/
def inRanges (ranges : List (Nat × Nat)) (codePoint : Nat) : Bool :=
  ranges.any fun range => range.1 ≤ codePoint && codePoint ≤ range.2

/-- The character has the Unicode property `Alphabetic`. -/
def isAlphabetic (c : Char) : Bool :=
  if c.toNat < 0x80 then c.isAlpha else inRanges alphabeticRanges c.toNat

/-- The character is alphabetic or a number: a decimal digit, a letter number or another number. -/
def isAlphanumeric (c : Char) : Bool :=
  if c.toNat < 0x80 then
    c.isAlphanum
  else
    inRanges alphabeticRanges c.toNat || inRanges numericRanges c.toNat

/-- The character has the Unicode property `White_Space`. -/
def isBlank (c : Char) : Bool :=
  inRanges
    [(0x09, 0x0D), (0x20, 0x20), (0x85, 0x85), (0xA0, 0xA0), (0x1680, 0x1680), (0x2000, 0x200A),
     (0x2028, 0x2029), (0x202F, 0x202F), (0x205F, 0x205F), (0x3000, 0x3000)]
    c.toNat

/-- The value of a hexadecimal digit in either case, if the character is one. -/
def hexDigitValue? (c : Char) : Option Nat :=
  if '0' ≤ c && c ≤ '9' then some (c.toNat - 0x30)
  else if 'A' ≤ c && c ≤ 'F' then some (c.toNat - 0x41 + 10)
  else if 'a' ≤ c && c ≤ 'f' then some (c.toNat - 0x61 + 10)
  else none

/-- The character is a hexadecimal digit in either case. -/
def isHexDigit (c : Char) : Bool :=
  (hexDigitValue? c).isSome

/-- The upper-case hexadecimal digit of a value below sixteen. -/
def hexDigit (value : Nat) : Char :=
  if value < 10 then Char.ofNat (0x30 + value) else Char.ofNat (0x41 + (value - 10))

/-- The number written by a list of hexadecimal digits; other characters count as zero. -/
def hexValue (digits : List Char) : Nat :=
  digits.foldl (fun value c => 16 * value + (hexDigitValue? c).getD 0) 0

/-- The number written by a list of decimal digits. -/
def decimalValue (digits : List Char) : Nat :=
  digits.foldl (fun value c => 10 * value + (c.toNat - 0x30)) 0

end SqlTree.Text
