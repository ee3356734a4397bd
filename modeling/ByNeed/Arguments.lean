/-!
# Thunks and arguments

A thunk is a name for a memoising slot of the store.  A lazy list is empty or a
cell of two thunks, so neither its elements nor the extent of its spine need be
known.

A call passes positional arguments and keyword arguments.  A positional argument
may be a list to be spread into several, and a keyword argument may be a
dictionary to be spread into several.
-/

namespace ByNeed

/-- A suspended or finished computation, named by the slot that memoises it. -/
structure Thunk where
  slot : Nat
  deriving DecidableEq, Repr

/-- A list whose head and tail are thunks. -/
inductive LazyList where
  | empty
  | cons (head tail : Thunk)
  deriving DecidableEq, Repr

namespace LazyList

def isEmpty : LazyList → Bool
  | .empty => true
  | .cons .. => false

def outline : LazyList → String
  | .empty => "[]"
  | .cons .. => "[..]"

end LazyList

inductive Positional where
  | single (value : Thunk)
  | spread (list : Thunk)
  deriving DecidableEq, Repr

namespace Positional

def thunk : Positional → Thunk
  | .single value => value
  | .spread list => list

def isSpread : Positional → Bool
  | .single _ => false
  | .spread _ => true

end Positional

inductive Keyword where
  | named (name : String) (value : Thunk)
  | spread (dictionary : Thunk)
  deriving DecidableEq, Repr

namespace Keyword

/-- A keyword argument under a name, where the empty name marks a spread. -/
def ofName (name : String) (value : Thunk) : Keyword :=
  if name.isEmpty then .spread value else .named name value

/-- The name of an argument, empty for a spread. -/
def name : Keyword → String
  | .named name _ => name
  | .spread _ => ""

def thunk : Keyword → Thunk
  | .named _ value => value
  | .spread dictionary => dictionary

def isSpread : Keyword → Bool
  | .named .. => false
  | .spread _ => true

end Keyword

/-- The arguments of one call, in the order written. -/
structure Arguments where
  positionals : List Positional := []
  keywords : List Keyword := []
  deriving DecidableEq, Repr

namespace Arguments

/-- Both argument lists, one after the other. -/
def merge (first second : Arguments) : Arguments :=
  { positionals := first.positionals ++ second.positionals
    keywords := first.keywords ++ second.keywords }

@[simp] theorem positionals_merge (first second : Arguments) :
    (first.merge second).positionals = first.positionals ++ second.positionals := rfl

@[simp] theorem keywords_merge (first second : Arguments) :
    (first.merge second).keywords = first.keywords ++ second.keywords := rfl

def ofThunks (values : List Thunk) : Arguments :=
  { positionals := values.map .single }

end Arguments
end ByNeed
