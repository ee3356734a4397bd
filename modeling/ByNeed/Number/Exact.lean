/-!
# Exact reading of numbers

A number is a double.  Its bits are read as a class: not a number, an infinity,
or an exact dyadic rational `mantissa * 2 ^ exponent` with a sign.  Everything
that looks inside a number (its order, its text, its remainder) goes through this
reading, so that it rests on integer arithmetic alone.
-/

namespace ByNeed
namespace Number

def twoTo (exponent : Nat) : Nat :=
  Nat.pow 2 exponent

def tenTo (exponent : Nat) : Nat :=
  Nat.pow 10 exponent

/-- What the bits of a number stand for. -/
inductive Reading where
  | notANumber
  | infinite (negative : Bool)
  | finite (negative : Bool) (mantissa : Nat) (exponent : Int)
  deriving DecidableEq, Repr

/-- Read the bits of a number. -/
def read (number : Float) : Reading :=
  let bits := number.toBits.toNat
  let negative := decide (twoTo 63 ≤ bits)
  let field : Nat := bits / twoTo 52 % twoTo 11
  let fraction : Nat := bits % twoTo 52
  if field = 2047 then
    if fraction = 0 then .infinite negative else .notANumber
  else if field = 0 then
    .finite negative fraction (-1074)
  else
    .finite negative (twoTo 52 + fraction) ((field : Int) - 1075)

def isNaN (number : Float) : Bool :=
  read number == .notANumber

/-- Number of binary digits of a natural number. -/
def bitLength (n : Nat) : Nat :=
  if n = 0 then 0 else n.log2 + 1

/-- The number `mantissa * 2 ^ exponent` with a sign.  The mantissa is shifted to
fifty-three binary digits, which loses nothing for values that a double can hold. -/
def ofExact (negative : Bool) (mantissa : Nat) (exponent : Int) : Float :=
  let signBit := if negative then twoTo 63 else 0
  if mantissa = 0 then
    Float.ofBits (UInt64.ofNat signBit)
  else
    let length := bitLength mantissa
    let significand := mantissa * twoTo (53 - length) / twoTo (length - 53)
    let field := exponent + (length : Int) + 1022
    let magnitude :=
      if 1 ≤ field then
        field.toNat * twoTo 52 + (significand - twoTo 52)
      else
        significand / twoTo (1 - field).toNat
    Float.ofBits (UInt64.ofNat (signBit + magnitude))

/-- The integer a number stands for, if it stands for one. -/
def toInt? (number : Float) : Option Int :=
  match read number with
  | .finite negative mantissa exponent =>
    let divisor := twoTo (-exponent).toNat
    if mantissa % divisor = 0 then
      let magnitude : Int := (mantissa / divisor * twoTo exponent.toNat : Nat)
      some (if negative then -magnitude else magnitude)
    else
      none
  | _ => none

/-- The remainder of a division that rounds its quotient toward zero.  It has the
sign of the dividend and is exact; a zero divisor or an infinite dividend leaves
no number. -/
def remainder (dividend divisor : Float) : Float :=
  match read dividend, read divisor with
  | .finite negative mantissa exponent, .finite _ mantissa' exponent' =>
    if mantissa' = 0 then
      0.0 / 0.0
    else
      let common := min exponent exponent'
      let left := mantissa * twoTo (exponent - common).toNat
      let right := mantissa' * twoTo (exponent' - common).toNat
      ofExact negative (left % right) common
  | .finite .., .infinite _ => dividend
  | _, _ => 0.0 / 0.0

end Number
end ByNeed
