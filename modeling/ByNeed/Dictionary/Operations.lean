import ByNeed.Compare
import ByNeed.Hash

/-!
# Operations on dictionaries

To find a key, its hash picks a bucket and structural equality picks an entry of
the bucket.  Both may evaluate what is inside the key, so every operation that
looks at keys may fail.  The size of a dictionary is kept up to date by what the walk
through its trie tells: whether an entry was added, and whether the root is another one.
-/

namespace ByNeed
namespace Dictionary

/-- The position of a key among entries. -/
def position? (key : Value) : List (Value × Thunk) → Attempt (Option Nat)
  | [] => return none
  | entry :: rest => do
      if ← equalValues entry.1 key then
        return some 0
      return (← position? key rest).map (· + 1)

/-- The value thunk of a key, if the key is present. -/
def get? (dictionary : Dict) (key : Value) : Attempt (Option Thunk) := do
  match dictionary.root with
  | none => return none
  | some trie =>
    let bucket := trie.bucket (← hashValue key)
    return (← position? key bucket).bind fun position => bucket[position]?.map Prod.snd

/-- The value thunk of a key that has to be present. -/
def index (dictionary : Dict) (key : Value) : Attempt Thunk := do
  match ← dictionary.get? key with
  | some value => return value
  | none => .fault (.absentKey key.outline)

def contains (dictionary : Dict) (key : Value) : Attempt Bool := do
  return (← dictionary.get? key).isSome

end Dictionary

/-! ## Updates of tries -/

namespace Trie

/-- A new node. -/
def make (node : Nat → Trie Value Thunk) : Attempt (Trie Value Thunk) := do
  return node (← ExceptT.lift (.perform .identity))

/-- Assign a value to a key with a hash.  A key that is present stays as it is and only its
value is replaced.  Beside the new node it is told whether an entry was added. -/
def insert (hash : UInt64) (key : Value) (value : Thunk) :
    Trie Value Thunk → Attempt (Trie Value Thunk × Bool)
  | .tip stamp found entries => do
    if found = hash then
      let position ← Dictionary.position? key entries
      let assigned := Dictionary.assignAt key value entries position
      return (← make (.tip · hash assigned), position.isNone)
    else
      let added ← make (.tip · hash [(key, value)])
      return (← make (join · hash added found (.tip stamp found entries)), true)
  | .bin stamp stem mask low high => do
    if above hash mask = stem then
      if hasBit hash mask then
        let (newHigh, added) ← high.insert hash key value
        return (← make (.bin · stem mask low newHigh), added)
      else
        let (newLow, added) ← low.insert hash key value
        return (← make (.bin · stem mask newLow high), added)
    else
      let added ← make (.tip · hash [(key, value)])
      return (← make (join · hash added stem (.bin stamp stem mask low high)), true)

/-- A branch after a key was removed on a side of it.  It is the other side if nothing is left, and
stays as it is if the side is the same. -/
def replaceSide (branch side other : Trie Value Thunk)
    (around : Trie Value Thunk → Nat → Trie Value Thunk) :
    Option (Trie Value Thunk) → Attempt (Trie Value Thunk)
  | none => return other
  | some newSide => if newSide.isSame side then return branch else make (around newSide)

/-- Remove a key with a hash.  A node without the key is left as it is, and where nothing is left
there is no node. -/
def remove (hash : UInt64) (key : Value) :
    Trie Value Thunk → Attempt (Option (Trie Value Thunk))
  | .tip stamp found entries => do
    if found = hash then
      match ← Dictionary.position? key entries with
      | some position =>
        if entries.length = 1 then
          return none
        return some (← make (.tip · hash (entries.eraseIdx position)))
      | none => return some (.tip stamp found entries)
    else
      return some (.tip stamp found entries)
  | .bin stamp stem mask low high => do
    if above hash mask = stem then
      if hasBit hash mask then
        return some (← replaceSide (.bin stamp stem mask low high) high low
          (fun newHigh stamp => .bin stamp stem mask low newHigh) (← high.remove hash key))
      else
        return some (← replaceSide (.bin stamp stem mask low high) low high
          (fun newLow stamp => .bin stamp stem mask newLow high) (← low.remove hash key))
    else
      return some (.bin stamp stem mask low high)

end Trie

namespace Dictionary

/-! ## Updates of dictionaries -/

/-- Assign a value to a key, replacing any previous value. -/
def insert (dictionary : Dict) (key : Value) (value : Thunk) : Attempt Dict := do
  let hash ← hashValue key
  match dictionary.root with
  | none => return { size := 1, root := some (← Trie.make (.tip · hash [(key, value)])) }
  | some node =>
    let (root, added) ← node.insert hash key value
    return { size := dictionary.size + added.toNat, root := some root }

/-- Remove a key.  A key was removed unless the root is still the same. -/
def remove (dictionary : Dict) (key : Value) : Attempt Dict := do
  match dictionary.root with
  | none => return dictionary
  | some node =>
    let root ← node.remove (← hashValue key) key
    let removed := !root.any (·.isSame node)
    return { size := dictionary.size - removed.toNat, root }

/-- Assign entries one after the other. -/
def insertAll : Dict → List (Value × Thunk) → Attempt Dict
  | dictionary, [] => return dictionary
  | dictionary, (key, value) :: rest => do
      insertAll (← dictionary.insert key value) rest

/-- The dictionary of some entries, where later ones win. -/
def ofEntries (entries : List (Value × Thunk)) : Attempt Dict :=
  insertAll empty entries

/-- Assign every entry of one dictionary onto another. -/
def merge (dictionary other : Dict) : Attempt Dict :=
  if dictionary.isEmpty then return other else insertAll dictionary other.toList

end Dictionary
end ByNeed
