import ByNeed.Number.Exact

/-!
# The order of numbers

Numbers are ordered by an integer key read off their bits.  The two zeros share
a key, and what is not a number has one key above all others, so the order is
total and equality is reflexive.
-/

namespace ByNeed
namespace Number

/-- The place of a number in the order. -/
def key (number : Float) : Int :=
  let bits := number.toBits.toNat
  let magnitude : Int := (bits % twoTo 63 : Nat)
  if isNaN number then (twoTo 63 : Int)
  else if bits < twoTo 63 then magnitude
  else -magnitude

/-- Compare two numbers by their keys. -/
def order (left right : Float) : Ordering :=
  compare (key left) (key right)

/-- The bits of the number with a key: of the two zeros the positive one, and one of
those that are not a number. -/
def keyBits (key : Int) : Nat :=
  if key = (twoTo 63 : Int) then 0x7ff8000000000000
  else if 0 ≤ key then key.toNat
  else twoTo 63 + (-key).toNat

/-- The word that stands for a number in hashes: numbers of one key share it. -/
def word (number : Float) : UInt64 :=
  UInt64.ofNat (keyBits (key number))

theorem word_eq_of_key_eq {left right : Float} (sameKey : key left = key right) :
    word left = word right := by
  simp [word, sameKey]

end Number
end ByNeed
