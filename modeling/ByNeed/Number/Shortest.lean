import ByNeed.Number.Decimal

/-!
# Fewest digits that read back

A finite number is written with the fewest decimal digits that read back as the same number.  The
reals that round to a number form an interval, which contains its ends when the mantissa is even.
Beginning with the power of ten above the number, its two neighbours on each decimal grid are
tested; the first grid with a hit wins, of two hits the nearer is taken, and a tie goes up.
-/

namespace ByNeed
namespace Number

/-- A positive binary number `mantissa * 2 ^ exponent`. -/
structure Binary where
  mantissa : Nat
  exponent : Int

namespace Binary

/-- The gap to the neighbour below is half the gap to the neighbour above. -/
def narrowBelow (number : Binary) : Bool :=
  number.mantissa == twoTo 52 && decide (-1074 < number.exponent)

/-- Whether a decimal lies among the reals that round to a number. -/
def readsBack (number : Binary) (decimal : Decimal) : Bool :=
  let low := 4 * number.mantissa - (if number.narrowBelow then 1 else 2)
  let high := 4 * number.mantissa + 2
  let closed := number.mantissa % 2 == 0
  let fromLow := compareScaled decimal.digits decimal.exponent low (number.exponent - 2)
  let fromHigh := compareScaled decimal.digits decimal.exponent high (number.exponent - 2)
  (fromLow == .gt || (closed && fromLow == .eq)) &&
    (fromHigh == .lt || (closed && fromHigh == .eq))

/-- The least power of ten above a number.  The binary logarithm gives an estimate
that is at most one step off on either side. -/
def decimalScale (number : Binary) : Int :=
  let estimate := ((bitLength number.mantissa : Int) + number.exponent) * 30103 / 100000
  let above (scale : Int) : Bool :=
    compareScaled 1 scale number.mantissa number.exponent == .gt
  if above (estimate - 1) then estimate - 1
  else if above estimate then estimate
  else if above (estimate + 1) then estimate + 1
  else estimate + 2

/-- The neighbour at or below a number on the grid of multiples of `10 ^ exponent`. -/
def floorOn (number : Binary) (exponent : Int) : Nat :=
  number.mantissa * twoTo number.exponent.toNat * tenTo (-exponent).toNat /
    (twoTo (-number.exponent).toNat * tenTo exponent.toNat)

/-- The neighbour of a number on one decimal grid that reads back, if there is one.
When both do, the nearer is taken and a tie goes up. -/
def onGrid? (number : Binary) (exponent : Int) : Option Decimal :=
  let below : Decimal := { digits := number.floorOn exponent, exponent }
  let above : Decimal := { digits := below.digits + 1, exponent }
  match number.readsBack below, number.readsBack above with
  | true, true =>
    let midpoint := compareScaled (2 * below.digits + 1) exponent number.mantissa
      (number.exponent + 1)
    some (if midpoint == .gt then below else above)
  | true, false => some below
  | false, true => some above
  | false, false => none

/-- All digits of a number. -/
def allDigits (number : Binary) : Decimal :=
  { digits := number.mantissa * twoTo number.exponent.toNat * Nat.pow 5 (-number.exponent).toNat
    exponent := min number.exponent 0 }

/-- The decimal of fewest digits that reads back as a number. -/
def shortest (number : Binary) : Decimal :=
  let scale := number.decimalScale
  let grids := (List.range 18).map fun (places : Nat) => scale - (places : Int)
  (grids.findSome? number.onGrid?).getD number.allDigits

end Binary

end Number
end ByNeed
