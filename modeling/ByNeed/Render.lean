import ByNeed.Compare

/-!
# Text of values

The text of a value shows it all the way down.  Strings are quoted, lists stand in
brackets, and dictionaries in braces with their entries in key order, so that equal
dictionaries have the same text.  A value that holds an error has no text; the
first error met is the outcome.
-/

namespace ByNeed

/-- The text of a value, by way of the routine. -/
def render (value : Value) : Attempt String :=
  .ofCode (.call (.render value) .done)

namespace LazyList

/-- The texts of the elements of a list. -/
def renderElements : LazyList → Attempt (List String)
  | .empty => return []
  | .cons head tail => do
      let text ← render (← force head)
      let rest ← forceList tail
      return text :: (← .ofCode (.call (.renderElements rest) .done))

end LazyList

namespace Dictionary

/-- The text of an entry, key and value in turn. -/
def renderEntry (entry : Value × Thunk) : Attempt String := do
  let keyText ← render entry.1
  let valueText ← render (← force entry.2)
  return keyText ++ " " ++ valueText

end Dictionary

namespace Value

/-- The text of a value, strings quoted. -/
def render : Value → Attempt String
  | .list cells => do
      return "[" ++ " ".intercalate (← cells.renderElements) ++ "]"
  | .dictionary entries => do
      let texts ← (← entries.sortedEntries).mapM Dictionary.renderEntry
      return "\x7b" ++ " ".intercalate texts ++ "\x7d"
  | .error failure => throw failure
  | other => return other.outline

/-- The text of a value, where a string stands for itself. -/
def display : Value → Attempt String
  | .string text => return text
  | other => ByNeed.render other

end Value
end ByNeed
