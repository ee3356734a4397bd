import ByNeed.Code.Basic
import ByNeed.Number.Order

/-!
# Structural hash

The hash of a value is the digest of the rank of its kind and of pieces for its contents.  Equal
values have equal pieces.  The entries of a dictionary are combined by addition, which does not
depend on their order.
-/

namespace ByNeed

/-- Hash a value, by way of the routine. -/
def hashValue (value : Value) : Attempt UInt64 :=
  .ofCode (.call (.hash value) .done)

/-- The digest of a sequence of pieces. -/
def digest (pieces : List Piece) : Attempt UInt64 :=
  .lift (.perform (.digest pieces))

def digestWords (words : List UInt64) : Attempt UInt64 :=
  digest (words.map Piece.word)

namespace LazyList

def hashes : LazyList → Attempt (List UInt64)
  | .empty => return []
  | .cons head tail => do
      let hash ← hashValue (← force head)
      let rest ← forceList tail
      return hash :: (← .ofCode (.call (.hashElements rest) .done))

end LazyList

namespace Dictionary

/-- The sum of the digests of entries. -/
def hashEntries : List (Value × Thunk) → UInt64 → Attempt UInt64
  | [], sum => return sum
  | (key, value) :: rest, sum => do
      let keyHash ← hashValue key
      let valueHash ← hashValue (← force value)
      hashEntries rest (sum + (← digestWords [keyHash, valueHash]))

end Dictionary

namespace Value

def hash : Value → Attempt UInt64
  | .nil => digestWords [0]
  | .boolean truth => digestWords [1, if truth then 1 else 0]
  | .number x => digestWords [2, Number.word x]
  | .string text => digest [.word 3, .text text]
  | .list cells => do digestWords (4 :: (← cells.hashes))
  | .dictionary entries => do
      let sum ← Dictionary.hashEntries entries.toList 0
      digestWords [5, UInt64.ofNat entries.size, sum]
  | .function callee => digestWords [6, UInt64.ofNat callee.identity]
  | .effect identity _ => digestWords [7, UInt64.ofNat identity]
  | .error failure => throw failure

end Value

end ByNeed
