import ByNeed.Number.Exact

/-!
# Decimals

A decimal is a natural number times a power of ten.  The power may be far out of
reach of any double, so the size of a decimal is judged by its number of digits
before anything is multiplied out.
-/

namespace ByNeed
namespace Number

/-- The decimal `digits * 10 ^ exponent`. -/
structure Decimal where
  digits : Nat
  exponent : Int
  deriving DecidableEq, Repr

/-- Compare `a * 10 ^ i` with `n * 2 ^ j`. -/
def compareScaled (a : Nat) (i : Int) (n : Nat) (j : Int) : Ordering :=
  compare
    (a * tenTo i.toNat * twoTo (-j).toNat)
    (n * twoTo j.toNat * tenTo (-i).toNat)

/-- The least magnitude that is rounded to an infinity: halfway between the largest
double and the next power of two. -/
def infiniteFrom : Nat :=
  twoTo 1024 - twoTo 970

/-- The number of decimal digits of `infiniteFrom`. -/
def infiniteDigits : Nat := 309

namespace Decimal

/-- The number of digits before the decimal point, negative where there are zeros
behind it. -/
def places (decimal : Decimal) : Int :=
  (Nat.toDigits 10 decimal.digits).length + decimal.exponent

/-- Whether the nearest double is an infinity. -/
def isInfinite (decimal : Decimal) : Bool :=
  if decimal.digits = 0 ∨ decimal.places < infiniteDigits then
    false
  else if infiniteDigits < decimal.places then
    true
  else
    compareScaled decimal.digits decimal.exponent infiniteFrom 0 != .lt

end Decimal
end Number
end ByNeed
