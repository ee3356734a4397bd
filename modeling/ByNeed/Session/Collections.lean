import ByNeed.Session.Values

/-!
# Operations on lists and dictionaries
-/

namespace ByNeed
namespace Host

def listSize (expr : Expr) : Host Nat := do
  attempt (← list expr).size

def listContains (expr element : Expr) : Host Bool := do
  let cells ← list expr
  let value ← value element
  attempt (cells.contains value)

def keepFirst (expr : Expr) : Host String := do
  keep (← attempt (← list expr).first)

def keepRest (expr : Expr) : Host String := do
  keep (← attempt (← list expr).rest)

def keepIndex (expr : Expr) (position : Nat) : Host String := do
  keep (← attempt ((← list expr).index position))

def keepDelete (expr : Expr) (position : Nat) : Host String := do
  let cells ← attempt ((← list expr).delete position)
  keep (← run (newValue (.list cells)))

/-- Walk a list up to a number of elements, and tell for each its state, or the error
that ends the walk. -/
def walkList : Nat → LazyList → Host (List (Except Error String))
  | 0, _ => return []
  | _, .empty => return []
  | room + 1, .cons head tail => do
      let first ← outline head
      if room = 0 then
        return [.ok first]
      match (← run (ByNeed.force tail)).toList with
      | .ok rest => return .ok first :: (← walkList room rest)
      | .error failure => return [.ok first, .error failure]

/-- The states of the elements of a list, up to the limit of the session. -/
def listElements (expr : Expr) : Host (List (Except Error String)) := do
  let cells ← list expr
  walkList (← get).limit cells

def keepAppend (first second : Expr) : Host String := do
  let front ← build first
  let tail ← build second
  keep (← run (LazyList.append front tail))

def keepPrepend (elements : List Expr) (expr : Expr) : Host String := do
  let thunks ← elements.mapM build
  let rest ← build expr
  keep (← run (LazyList.prepend thunks rest))

def dictionarySize (expr : Expr) : Host Nat := do
  return (← dictionary expr).size

def dictionaryContains (expr key : Expr) : Host Bool := do
  let entries ← dictionary expr
  let key ← value key
  attempt (entries.contains key)

def dictionarySame (left right : Expr) : Host Bool := do
  let leftEntries ← dictionary left
  let rightEntries ← dictionary right
  return leftEntries.isSame rightEntries

/-- The entries of a dictionary as text, keys by their outline. -/
def dictionaryOutline (expr : Expr) : Host String := do
  let entries := (← dictionary expr).toList
  let texts ← entries.mapM fun (key, thunk) => do
    return key.outline ++ ": " ++ (← outline thunk)
  return "\x7b" ++ ", ".intercalate texts ++ "\x7d"

/-- Make a dictionary the last result kept. -/
def keepDictionary (entries : Dict) : Host Unit := do
  bind lastName (← run (newValue (.dictionary entries)))

/-- Assign a value to a key and tell the number of entries. -/
def insert (expr key assigned : Expr) : Host Nat := do
  let entries ← dictionary expr
  let key ← value key
  let thunk ← build assigned
  let result ← attempt (entries.insert key thunk)
  keepDictionary result
  return result.size

/-- Remove a key, and tell the number of entries and whether nothing changed. -/
def remove (expr key : Expr) : Host (Nat × Bool) := do
  let entries ← dictionary expr
  let key ← value key
  let result ← attempt (entries.remove key)
  keepDictionary result
  return (result.size, result.isSame entries)

/-- Merge two dictionaries, and tell the number of entries and whether the result is
the one or the other. -/
def merge (left right : Expr) : Host (Nat × Bool × Bool) := do
  let leftEntries ← dictionary left
  let rightEntries ← dictionary right
  let result ← attempt (leftEntries.merge rightEntries)
  keepDictionary result
  return (result.size, result.isSame leftEntries, result.isSame rightEntries)

def keepGet (expr key : Expr) : Host (Option String) := do
  let entries ← dictionary expr
  let key ← value key
  match ← attempt (entries.get? key) with
  | some thunk => return some (← keep thunk)
  | none => return none

def keepLookup (expr key : Expr) : Host String := do
  let entries ← dictionary expr
  let key ← value key
  keep (← attempt (entries.index key))

/-- The keys of a dictionary in order, each with the state of its value. -/
def dictionaryEntries (expr : Expr) : Host (List (View × String)) := do
  let entries ← attempt (← dictionary expr).sortedEntries
  entries.mapM fun (key, thunk) => do
    return (← view key, ← outline thunk)

/-- The pairs of key and value of a dictionary, in key order. -/
def dictionaryPairs (expr : Expr) : Host (List View) := do
  let entries ← dictionary expr
  let sorted ← attempt entries.sortedEntries
  sorted.mapM fun (key, thunk) => do
    let pair ← run do
      let keyThunk ← newValue key
      LazyList.ofThunks [keyThunk, thunk]
    view (.list pair)

end Host
end ByNeed
