import SqlTree.Decimal.Shortest

set_option autoImplicit false

/-!
# Writing doubles

A layout decides which magnitudes are written with all their places and which with a power of ten.
The digits are always those of the shortest numeral that reads back. A whole number keeps one zero
after the point as long as no power of ten is written.

## Main definitions

* `SqlTree.Decimal.Layout` — the range of magnitudes that are written with all their places.
* `SqlTree.Decimal.Layout.write` — the text of a double.
-/

namespace SqlTree.Decimal

/-- Which doubles are written with all their places, by the power of ten of the leading digit. -/
structure Layout where
  /-- The smallest power written with all places. -/
  lowest : Int
  /-- The largest power written with all places. -/
  highest : Int
  /-- The character before a power of ten. -/
  mark : Char
deriving Repr

namespace Layout

/-- Writes digits of which the first stands for `10 ^ leading`, with all their places. -/
def positional (digits : List Char) (leading : Int) : List Char :=
  if leading < 0 then
    '0' :: '.' :: (List.replicate (-leading - 1).toNat '0' ++ digits)
  else
    let count := leading.toNat + 1
    let whole := digits.take count ++ List.replicate (count - digits.length) '0'
    let fraction := digits.drop count
    whole ++ '.' :: (if fraction.isEmpty then ['0'] else fraction)

/-- Writes digits of which the first stands for `10 ^ leading`, with that power of ten. -/
def exponential (mark : Char) (digits : List Char) (leading : Int) : List Char :=
  digits.take 1 ++ (if digits.length ≤ 1 then [] else '.' :: digits.drop 1) ++
    mark :: (toString leading).toList

/-- The text of a positive finite double, given its bits. -/
def writeMagnitude (layout : Layout) (bits : Nat) : List Char :=
  let numeral := shortest bits
  let digits := digitChars numeral.digits
  let leading := numeral.exponent + digits.length - 1
  if layout.lowest ≤ leading && leading ≤ layout.highest then
    positional digits leading
  else
    exponential layout.mark digits leading

/-- The text of a double. Zero keeps its sign. -/
def write (layout : Layout) (value : Float) : String :=
  let bits := value.toBits.toNat
  let magnitude := bits % signBit
  if infinityBits < magnitude then
    "NaN"
  else
    let text :=
      if magnitude = infinityBits then "inf".toList
      else if magnitude = 0 then "0.0".toList
      else layout.writeMagnitude magnitude
    String.ofList (if signBit ≤ bits then '-' :: text else text)

end Layout

end SqlTree.Decimal
