import ByNeed.Number.Decimal
import ByNeed.Toml.Scan

/-!
# Numbers and moments of documents

Digits may be grouped by single underscores.  Integers are sixty-four bits wide and
may be written in four bases; moments are dates, times, or both, with or without an
offset.
-/

namespace ByNeed
namespace Toml

/-- Digits as far as they go, without the underscores between them. -/
def groupedDigits (isDigit : Char → Bool) : List Char → List Char × List Char
  | '_' :: character :: rest =>
    if isDigit character then
      let (digits, rest) := groupedDigits isDigit rest
      (character :: digits, rest)
    else
      ([], '_' :: character :: rest)
  | character :: rest =>
    if isDigit character then
      let (digits, rest) := groupedDigits isDigit rest
      (character :: digits, rest)
    else
      ([], character :: rest)
  | [] => ([], [])

/-- One digit or more, grouped. -/
def digitGroups (isDigit : Char → Bool) : Scan (List Char) := do
  let first ← Scan.satisfy isDigit
  let rest ← fun input => some (groupedDigits isDigit input)
  return first :: rest

/-- The value of digits in a base. -/
def digitsValue (base : Nat) (digits : List Char) : Nat :=
  digits.foldl
    (fun total digit =>
      let value :=
        if digit.isDigit then digit.toNat - '0'.toNat
        else digit.toLower.toNat - 'a'.toNat + 10
      total * base + value)
    0

/-- A sign; whether it is a minus. -/
def sign : Scan Bool := do
  match ← Scan.peek with
  | some '-' => do
      Scan.expect '-'
      return true
  | some '+' => do
      Scan.expect '+'
      return false
  | _ => return false

/-- Decimal digits that begin with a zero only if there is one digit. -/
def decimalDigits : Scan (List Char) := do
  match ← Scan.peek with
  | some '0' => do
      Scan.expect '0'
      return ['0']
  | _ => digitGroups Char.isDigit

/-- An integer that fits sixty-four bits. -/
def ranged (integer : Int) : Scan Int :=
  if -9223372036854775808 ≤ integer ∧ integer ≤ 9223372036854775807 then return integer else failure

def isHexDigit (character : Char) : Bool :=
  character.isDigit || ('a' ≤ character && character ≤ 'f') ||
    ('A' ≤ character && character ≤ 'F')

/-- An integer in a base other than ten, after its mark. -/
def basedInteger (mark : Char) (base : Nat) (isDigit : Char → Bool) : Scan Int := do
  Scan.expectAll ['0', mark]
  let digits ← digitGroups isDigit
  ranged (digitsValue base digits)

def decimalInteger : Scan Int := do
  let negative ← sign
  let magnitude : Int := digitsValue 10 (← decimalDigits)
  ranged (if negative then -magnitude else magnitude)

def integer : Scan Int :=
  basedInteger 'x' 16 isHexDigit
    <|> basedInteger 'o' 8 (fun character => '0' ≤ character && character ≤ '7')
    <|> basedInteger 'b' 2 (fun character => character == '0' || character == '1')
    <|> decimalInteger

/-- The power of ten of a fractional number. -/
def power : Scan Int := do
  let _ ← Scan.satisfy fun character => character == 'e' || character == 'E'
  let negative ← sign
  let magnitude : Int := digitsValue 10 (← digitGroups Char.isDigit)
  return if negative then -magnitude else magnitude

/-- The places of a fractional number, and its power of ten if there is one. -/
def fraction : Scan (List Char × Int) := do
  Scan.expect '.'
  let places ← digitGroups Char.isDigit
  let shift ← Scan.optional power
  return (places, shift.getD 0)

/-- A fractional number without its sign. -/
def decimal : Scan Number.Decimal := do
  let whole ← decimalDigits
  let (places, shift) ← (do return ([], ← power)) <|> fraction
  return {
    digits := digitsValue 10 (whole ++ places)
    exponent := shift - places.length }

/-- A fractional number, an infinity, or what is not a number, as written.  A number
too large for a double is refused; one that is too far below zero is not. -/
def fractional : Scan String :=
  Scan.taken do
    let negative ← sign
    (do
      let magnitude ← decimal
      if !negative && magnitude.isInfinite then failure)
      <|> Scan.expectAll ['i', 'n', 'f']
      <|> Scan.expectAll ['n', 'a', 'n']

/-- A number of so many digits within bounds. -/
def fixedDigits (count low high : Nat) : Scan Nat := do
  let digits ← (List.replicate count ()).mapM fun _ => Scan.satisfy Char.isDigit
  let value := digitsValue 10 digits
  if low ≤ value ∧ value ≤ high then return value else failure

def daysOfMonth (year month : Nat) : Nat :=
  if month = 2 then
    if year % 4 = 0 ∧ (year % 100 ≠ 0 ∨ year % 400 = 0) then 29 else 28
  else if month = 4 ∨ month = 6 ∨ month = 9 ∨ month = 11 then 30
  else 31

def date : Scan Unit := do
  let year ← fixedDigits 4 0 9999
  Scan.expect '-'
  let month ← fixedDigits 2 1 12
  Scan.expect '-'
  let _ ← fixedDigits 2 1 (daysOfMonth year month)

/-- A time of day, with a fraction of a second if there is one. -/
def time : Scan Unit := do
  let _ ← fixedDigits 2 0 23
  Scan.expect ':'
  let _ ← fixedDigits 2 0 59
  Scan.expect ':'
  let _ ← fixedDigits 2 0 60
  let _ ← Scan.optional do
    Scan.expect '.'
    let _ ← Scan.satisfy Char.isDigit
    Scan.takeWhile Char.isDigit

/-- An offset from universal time. -/
def offset : Scan Unit := do
  let mark ← Scan.next
  if mark == 'Z' || mark == 'z' then
    return ()
  else if mark == '+' || mark == '-' then
    let _ ← fixedDigits 2 0 23
    Scan.expect ':'
    let _ ← fixedDigits 2 0 59
  else
    failure

/-- A date, a time, or both, as written. -/
def moment : Scan String :=
  Scan.taken do
    (do
      date
      let _ ← Scan.optional do
        let _ ← Scan.satisfy fun mark => mark == 'T' || mark == 't' || mark == ' '
        time
        let _ ← Scan.optional offset)
      <|> time

end Toml
end ByNeed
