import ByNeed.Number.Shortest

/-!
# Text of numbers

Numbers are written positionally with the fewest digits that read back, however
long that is, and whole numbers without a point.  Both zeros are told apart, and
what is not a number has no sign.
-/

namespace ByNeed
namespace Number

def digitsText (n : Nat) : List Char :=
  Nat.toDigits 10 n

/-- Positional text of a decimal. -/
def Decimal.text (decimal : Decimal) : String :=
  let digits := digitsText decimal.digits
  if 0 ≤ decimal.exponent then
    String.ofList (digits ++ List.replicate decimal.exponent.toNat '0')
  else
    let places := (-decimal.exponent).toNat
    if places < digits.length then
      let whole := digits.length - places
      String.ofList (digits.take whole ++ '.' :: digits.drop whole)
    else
      String.ofList
        ('0' :: '.' :: (List.replicate (places - digits.length) '0' ++ digits))

def text (number : Float) : String :=
  match read number with
  | .notANumber => "NaN"
  | .infinite negative => if negative then "-inf" else "inf"
  | .finite negative mantissa exponent =>
    let sign := if negative then "-" else ""
    if mantissa = 0 then sign ++ "0"
    else sign ++ ({ mantissa, exponent : Binary }.shortest).text

end Number
end ByNeed
