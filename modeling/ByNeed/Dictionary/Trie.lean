/-!
# Tries over hashes

A trie maps 64-bit hashes to buckets of entries.  It is a big-endian Patricia trie: a branch tests
the highest bit in which the hashes below it differ, and its stem holds the bits above that one.
An update makes new nodes on the way to the bucket it changes and shares all others.  Every node
bears a stamp of its own, by which it is told from all others.
-/

namespace ByNeed

/-- A nonempty map from hashes to buckets. -/
inductive Trie (κ ν : Type) where
  | tip (stamp : Nat) (hash : UInt64) (bucket : List (κ × ν))
  | bin (stamp : Nat) (stem mask : UInt64) (low high : Trie κ ν)

namespace Trie

variable {κ ν : Type}

def stamp : Trie κ ν → Nat
  | .tip stamp .. => stamp
  | .bin stamp .. => stamp

/-- Whether two nodes are the very same. -/
def isSame (left right : Trie κ ν) : Bool :=
  left.stamp == right.stamp

@[simp] theorem isSame_self (node : Trie κ ν) : node.isSame node = true := by
  simp [isSame]

/-- The bits of a hash above a mask bit. -/
def above (hash mask : UInt64) : UInt64 :=
  hash &&& ((0 - mask) ^^^ mask)

/-- Whether the mask bit is set in a hash. -/
def hasBit (hash mask : UInt64) : Bool :=
  hash &&& mask != 0

/-- The highest bit in which two hashes differ. -/
def branchingBit (left right : UInt64) : UInt64 :=
  let difference := left ^^^ right
  if difference = 0 then 0 else 1 <<< difference.log2

/-- A branch over two tries whose hashes, or stems, differ. -/
def join (stamp : Nat) (leftStem : UInt64) (left : Trie κ ν)
    (rightStem : UInt64) (right : Trie κ ν) : Trie κ ν :=
  let mask := branchingBit leftStem rightStem
  let stem := above leftStem mask
  if hasBit leftStem mask then .bin stamp stem mask right left
  else .bin stamp stem mask left right

/-- The bucket of a hash, empty when there is none. -/
def bucket (hash : UInt64) : Trie κ ν → List (κ × ν)
  | .tip _ hash' entries => if hash' = hash then entries else []
  | .bin _ stem mask low high =>
    if above hash mask = stem then
      if hasBit hash mask then high.bucket hash else low.bucket hash
    else
      []

/-- All entries, by increasing hash. -/
def toList : Trie κ ν → List (κ × ν)
  | .tip _ _ entries => entries
  | .bin _ _ _ low high => low.toList ++ high.toList

end Trie
end ByNeed
