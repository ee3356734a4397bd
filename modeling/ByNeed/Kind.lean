/-!
# Kinds of values

Every value has one of nine kinds.  Kinds name values in messages, and values of
different kinds are ordered by the rank of their kinds.
-/

namespace ByNeed

/-- The kind of a value, listed in rank order. -/
inductive Kind where
  | nil
  | boolean
  | number
  | string
  | list
  | dictionary
  | function
  | effect
  | error
  deriving DecidableEq, Repr

namespace Kind

def name : Kind → String
  | .nil => "nil"
  | .boolean => "boolean"
  | .number => "number"
  | .string => "string"
  | .list => "list"
  | .dictionary => "dictionary"
  | .function => "function"
  | .effect => "effect"
  | .error => "error"

/-- The place of a kind in the order of values. -/
def rank : Kind → Nat
  | .nil => 0
  | .boolean => 1
  | .number => 2
  | .string => 3
  | .list => 4
  | .dictionary => 5
  | .function => 6
  | .effect => 7
  | .error => 8

end Kind
end ByNeed
