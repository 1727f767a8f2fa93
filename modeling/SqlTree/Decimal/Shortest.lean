import SqlTree.Decimal.Reading

set_option autoImplicit false

/-!
# The shortest decimal numeral of a double

Of all decimal numerals that read back as a given double, the shortest has the fewest digits; of
those with equally few it is the nearest to the double, and of two equally near ones the larger.
For each count of digits only the two neighbours of the exact value on that decimal grid have to be
tried, because a grid point that reads back has one of them between itself and the value.

## Main definitions

* `SqlTree.Decimal.exactQuotient` — the value of a double as an exact quotient.
* `SqlTree.Decimal.shortest` — the shortest numeral that reads back as the double.
-/

namespace SqlTree.Decimal

/-- The value of the positive finite double with these bits, as a numerator and a denominator. -/
def exactQuotient (bits : Nat) : Nat × Nat :=
  let field := bits / leadingBit
  let fraction := bits % leadingBit
  let mantissa := if field = 0 then fraction else leadingBit + fraction
  let exponent : Int := (max field 1 : Nat) - 1075
  (mantissa * Nat.pow 2 exponent.toNat, Nat.pow 2 (-exponent).toNat)

/-- The power of ten that the leading digit of `num / den` stands for, for quotients that are at
least `10 ^ (-400)`. -/
def leadingExponent (num den : Nat) : Int :=
  (digitChars (num * Nat.pow 10 400 / den)).length - 401

/-- The numeral whose digits are all those of the exact quotient `num / den`, where `den` is a power
of two. -/
def exactNumeral (num den : Nat) : Numeral :=
  ⟨num * Nat.pow 5 den.log2, -(den.log2 : Int)⟩

/-- The numeral on the grid of multiples of `10 ^ exponent` that reads back as `bits` and lies next
to `num / den`. The nearer neighbour wins, and the upper one if both are equally near. -/
def onGrid? (bits num den : Nat) (exponent : Int) : Option Numeral :=
  let num := num * Nat.pow 10 (-exponent).toNat
  let den := den * Nat.pow 10 exponent.toNat
  let lower : Numeral := ⟨num / den, exponent⟩
  let upper : Numeral := ⟨num / den + 1, exponent⟩
  let nearerFirst := if 2 * (num % den) < den then [lower, upper] else [upper, lower]
  nearerFirst.find? fun numeral => numeral.bits == bits

/-- Removes the trailing zeros of the digits; the fuel bounds their number. -/
def dropZeros : Nat → Numeral → Numeral
  | 0, numeral => numeral
  | fuel + 1, numeral =>
    if numeral.digits % 10 = 0 then
      dropZeros fuel ⟨numeral.digits / 10, numeral.exponent + 1⟩
    else
      numeral

/-- The shortest numeral that reads back as the positive finite double with these bits. Seventeen
digits always suffice; the exact digits stand behind them. -/
def shortest (bits : Nat) : Numeral :=
  let (num, den) := exactQuotient bits
  let leading := leadingExponent num den
  let found := (List.range 17).findSome? fun (count : Nat) =>
    onGrid? bits num den (leading - count)
  dropZeros 17 (found.getD (exactNumeral num den))

end SqlTree.Decimal
