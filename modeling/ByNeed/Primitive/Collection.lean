import ByNeed.Dictionary.Operations
import ByNeed.LazyList
import ByNeed.Primitive.Arithmetic

/-!
# Operations on collections

Lists, dictionaries and strings share the names of their operations; which one is
meant depends on the collection.
-/

namespace ByNeed

/-- Fail because a value is not a collection.  An error stands for itself. -/
def notACollection {α : Type} : Value → Attempt α
  | .error failure => throw failure
  | other => .fault (.notACollection other.kind)

namespace Text

/-- Whether one sequence of characters begins another. -/
def startsWith : List Char → List Char → Bool
  | [], _ => true
  | _ :: _, [] => false
  | wanted :: pattern, character :: text => wanted == character && startsWith pattern text

/-- Whether one sequence of characters occurs within another. -/
def occursIn (pattern : List Char) : List Char → Bool
  | [] => pattern.isEmpty
  | character :: text => startsWith pattern (character :: text) || occursIn pattern text

end Text

namespace Value

def toPosition (value : Value) : Attempt Nat := do
  let number ← Attempt.ofExcept value.toNumber
  Attempt.ofExcept (Number.position number)

end Value

namespace Collection

/-- The number of elements, entries or characters. -/
def size (collection : Value) : Attempt Thunk := do
  let count ←
    match collection with
    | .list cells => cells.size
    | .dictionary entries => pure entries.size
    | .string text => pure text.length
    | other => notACollection other
  newValue (.number (Float.ofNat count))

/-- The element at a position, the value of a key, or the character at a position. -/
def index (collection key : Value) : Attempt Thunk := do
  match collection with
  | .list cells => cells.index (← key.toPosition)
  | .dictionary entries => entries.index key
  | .string text =>
    let position ← key.toPosition
    match text.toList[position - 1]? with
    | some character => newValue (.string character.toString)
    | none => .fault (.positionOutOfRange position)
  | other => notACollection other

/-- Whether an element, a key or a part is there. -/
def includes (collection element : Value) : Attempt Thunk := do
  let found ←
    match collection with
    | .list cells => cells.contains element
    | .dictionary entries => entries.contains element
    | .string text =>
      let part ← Attempt.ofExcept element.toText
      pure (Text.occursIn part.toList text.toList)
    | other => notACollection other
  newValue (.boolean found)

/-- The collection without the element at a position, or without a key. -/
def delete (collection key : Value) : Attempt Thunk := do
  match collection with
  | .list cells => newValue (.list (← cells.delete (← key.toPosition)))
  | .dictionary entries => newValue (.dictionary (← entries.remove key))
  | other => notACollection other

/-- The elements, the pairs of key and value, or the characters as a list. -/
def toList (collection : Value) : Attempt Thunk := do
  match collection with
  | .list cells => newValue (.list cells)
  | .dictionary entries => newValue (.list (← entries.pairs))
  | .string text =>
    let characters := text.toList.map fun character => Value.string character.toString
    newValue (.list (← LazyList.ofValues characters))
  | other => notACollection other

end Collection

namespace Dictionary

/-- Assign alternating keys and values, by way of the routine. -/
def assign (dictionary : Dict) (list : LazyList) : Attempt Dict :=
  .ofCode (.call (.assign dictionary list) .done)

/-- Assign alternating keys and values: the first pair, then the others. -/
def assignStep (dictionary : Dict) : LazyList → Attempt Dict
  | .empty => return dictionary
  | .cons head tail => do
      let key ← Attempt.ofExcept (← force head).check
      match ← forceList tail with
      | .empty => .fault .unpairedKey
      | .cons value rest =>
        let assigned ← dictionary.insert key value
        assigned.assign (← forceList rest)

/-- Merge the dictionaries of a list onto a dictionary, by way of the routine. -/
def mergeAll (dictionary : Dict) (list : LazyList) : Attempt Dict :=
  .ofCode (.call (.mergeAll dictionary list) .done)

/-- Merge the dictionaries of a list onto a dictionary: the first, then the others. -/
def mergeAllStep (dictionary : Dict) : LazyList → Attempt Dict
  | .empty => return dictionary
  | .cons head tail => do
      let merged ← dictionary.merge (← forceDictionary head)
      merged.mergeAll (← forceList tail)

end Dictionary

namespace Collection

/-- A dictionary with alternating keys and values assigned. -/
def assign (dictionary : Dict) (keysAndValues : Thunk) : Attempt Thunk := do
  let list ← forceList keysAndValues
  newValue (.dictionary (← dictionary.assign list))

/-- A collection and others of its kind, put together. -/
def merge (collection others : Thunk) : Attempt Thunk := do
  match ← force collection with
  | .dictionary entries =>
    let list ← forceList others
    newValue (.dictionary (← entries.mergeAll list))
  | .list _ =>
    let rest ← suspend (.concatenate others)
    LazyList.append collection rest
  | other => notACollection other

/-- All but the last element in front of the last, which is a list left alone. -/
def prepend (elementsAndList : Thunk) : Attempt Thunk := do
  let elements ← (← forceList elementsAndList).elements
  match elements.getLast? with
  | some list => LazyList.prepend elements.dropLast list
  | none => .fault .nothingToExtend

end Collection
end ByNeed
