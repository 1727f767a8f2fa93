import SqlTree.Text.CharClass

set_option autoImplicit false

/-!
# Reading decimal numerals

A decimal numeral is a whole number of digits times a power of ten. Its floating-point value is the
double nearest to it; a numeral half way between two doubles goes to the one whose mantissa is even.
All arithmetic is exact, on natural numbers.

## Main definitions

* `SqlTree.Decimal.nearestDouble` — the bits of the double nearest to a quotient.
* `SqlTree.Decimal.Numeral` — digits and a power of ten, with `Numeral.bits` and `Numeral.toFloat`.
* `SqlTree.Decimal.parse?` — the double that a text writes, with its sign, or as a word.
-/

namespace SqlTree.Decimal

/-! ## Rounding a quotient to a double -/

/-- The bits of positive infinity; every larger magnitude is rounded to it. -/
def infinityBits : Nat := 0x7FF0000000000000

/-- The leading bit of a mantissa of 53 bits, of which a double stores the other 52. -/
def leadingBit : Nat := 0x10000000000000

/-- The quotient `num / den`, rounded to a whole number; half goes to the even neighbour. -/
def roundHalfEven (num den : Nat) : Nat :=
  let quotient := num / den
  let excess := 2 * (num % den)
  if den < excess || (excess == den && quotient % 2 == 1) then quotient + 1 else quotient

/-- The quotient `num / den` divided by the power `2 ^ exponent`, as a numerator and a
denominator. -/
def scaleDown (num den : Nat) (exponent : Int) : Nat × Nat :=
  (num * Nat.pow 2 (-exponent).toNat, den * Nat.pow 2 exponent.toNat)

/-- The power of two that the last bit of the mantissa of `num / den` stands for: the one that
leaves a mantissa of 53 bits, but never less than that of the subnormal numbers. -/
def mantissaExponent (num den : Nat) : Int :=
  let guess : Int := num.log2 - den.log2 - 52
  let scaled := scaleDown num den guess
  let exact := if scaled.1 / scaled.2 < leadingBit then guess - 1 else guess
  max exact (-1074)

/-- The bits of the double nearest to `num / den`, where `den` is positive. A mantissa of 53 bits
carries its leading one into the exponent field, so that rounding up to the next power of two needs
no case of its own. -/
def nearestDouble (num den : Nat) : Nat :=
  if num = 0 then
    0
  else
    let exponent := mantissaExponent num den
    let scaled := scaleDown num den exponent
    min ((exponent + 1074).toNat * leadingBit + roundHalfEven scaled.1 scaled.2) infinityBits

/-! ## Numerals -/

/-- The number `digits * 10 ^ exponent`. -/
structure Numeral where
  /-- The digits, read as a whole number. -/
  digits : Nat
  /-- The power of ten that the last digit stands for. -/
  exponent : Int
deriving DecidableEq, Repr

/-- The decimal digits of a whole number, without leading zeros. -/
def digitChars (n : Nat) : List Char :=
  Nat.toDigits 10 n

namespace Numeral

/-- The power of ten just above the leading digit. -/
def magnitude (numeral : Numeral) : Int :=
  numeral.exponent + (digitChars numeral.digits).length

/-- The bits of the double nearest to the numeral. Numerals far outside the range of the doubles are
decided by their magnitude alone. -/
def bits (numeral : Numeral) : Nat :=
  if numeral.digits = 0 || numeral.magnitude < -400 then
    0
  else if 400 < numeral.magnitude then
    infinityBits
  else
    nearestDouble (numeral.digits * Nat.pow 10 numeral.exponent.toNat)
      (Nat.pow 10 (-numeral.exponent).toNat)

/-- The double nearest to the numeral. -/
def toFloat (numeral : Numeral) : Float :=
  Float.ofBits (UInt64.ofNat numeral.bits)

/-- Reads digits, an optional fraction and an optional power of ten. One digit must stand before or
after the point, and one in the power of ten if it is written. -/
def ofChars? (chars : List Char) : Option Numeral :=
  let whole := chars.takeWhile Char.isDigit
  let (fraction, rest) : List Char × List Char :=
    match chars.dropWhile Char.isDigit with
    | '.' :: rest => (rest.takeWhile Char.isDigit, rest.dropWhile Char.isDigit)
    | rest => ([], rest)
  let power? : Option Int :=
    match rest with
    | [] => some 0
    | mark :: rest =>
      let (sign, digits) : Int × List Char :=
        match rest with
        | '-' :: digits => (-1, digits)
        | '+' :: digits => (1, digits)
        | digits => (1, digits)
      if (mark == 'e' || mark == 'E') && !digits.isEmpty && digits.all Char.isDigit then
        some (sign * Text.decimalValue digits)
      else
        none
  match power? with
  | some power =>
    if whole.isEmpty && fraction.isEmpty then
      none
    else
      some ⟨Text.decimalValue (whole ++ fraction), power - fraction.length⟩
  | none => none

end Numeral

/-! ## Signed numerals and the words for infinity and not-a-number -/

/-- The bit that is set in a negative double. -/
def signBit : Nat := 0x8000000000000000

/-- The magnitude that a text without its sign writes, as bits. The words are read in any case. -/
def magnitudeBits? (chars : List Char) : Option Nat :=
  let word := String.ofList (chars.map Char.toLower)
  if word == "inf" || word == "infinity" then some infinityBits
  else if word == "nan" then some 0x7FF8000000000000
  else (Numeral.ofChars? chars).map Numeral.bits

/-- The double that a text writes: an optional sign before a numeral or before one of the words
`inf`, `infinity` and `nan`. -/
def parse? (text : String) : Option Float :=
  let bits? :=
    match text.toList with
    | '-' :: rest => (magnitudeBits? rest).map (· + signBit)
    | '+' :: rest => magnitudeBits? rest
    | chars => magnitudeBits? chars
  bits?.map fun bits => Float.ofBits (UInt64.ofNat bits)

end SqlTree.Decimal
