import ByNeed.Dictionary.Basic
import ByNeed.Fault
import ByNeed.Function
import ByNeed.Text.Quoted

/-!
# Values

A value is what a thunk evaluates to.  Only its outermost layer is known: lists
and dictionaries hold thunks.  Errors are values, and so are effects, which pure
evaluation hands around but never runs.
-/

namespace ByNeed

/-- A value known in its outermost layer. -/
inductive Value where
  | nil
  | boolean (value : Bool)
  | number (value : Float)
  | string (value : String)
  | list (cells : LazyList)
  | dictionary (entries : Dictionary Value Thunk)
  | function (callee : Function)
  /-- An impure computation, told apart by an identity given at creation. -/
  | effect (identity : Nat) (payload : Thunk)
  | error (failure : Error)

/-- A dictionary from values to thunks. -/
abbrev Dict := Dictionary Value Thunk

namespace Value

instance : Inhabited Value := ⟨.nil⟩

def kind : Value → Kind
  | .nil => .nil
  | .boolean _ => .boolean
  | .number _ => .number
  | .string _ => .string
  | .list _ => .list
  | .dictionary _ => .dictionary
  | .function _ => .function
  | .effect .. => .effect
  | .error _ => .error

def isError : Value → Bool
  | .error _ => true
  | _ => false

/-- The error that stands for a fault. -/
def fault (cause : Fault) : Value :=
  .error cause.error

/-- The error raised when a value is not of the kind wanted.  A value that is an
error stands for itself. -/
def unexpected (wanted : Kind) : Value → Error
  | .error failure => failure
  | other => (Fault.expected wanted other.kind).error

def toNumber : Value → Except Error Float
  | .number x => .ok x
  | other => .error (other.unexpected .number)

def toBoolean : Value → Except Error Bool
  | .boolean truth => .ok truth
  | other => .error (other.unexpected .boolean)

def toText : Value → Except Error String
  | .string text => .ok text
  | other => .error (other.unexpected .string)

def toList : Value → Except Error LazyList
  | .list cells => .ok cells
  | other => .error (other.unexpected .list)

def toDictionary : Value → Except Error Dict
  | .dictionary entries => .ok entries
  | other => .error (other.unexpected .dictionary)

def toFunction : Value → Except Error Function
  | .function callee => .ok callee
  | other => .error (other.unexpected .function)

/-- Split errors off from other values. -/
def check : Value → Except Error Value
  | .error failure => .error failure
  | other => .ok other

/-- What pure evaluation makes of a value: effects are refused. -/
def purely : Value → Value
  | .effect .. => fault .impureEffect
  | other => other

/-- The value after passing through a call: errors record its site. -/
def through (value : Value) (site : Option Site) : Value :=
  match value, site with
  | .error failure, some site => .error (failure.through site)
  | value, _ => value

def outline : Value → String
  | .nil => "nil"
  | .boolean truth => if truth then "true" else "false"
  | .number x => Number.text x
  | .string text => Text.quote text
  | .list cells => cells.outline
  | .dictionary entries => "<dictionary of " ++ toString entries.size ++ ">"
  | .function callee => callee.outline
  | .effect .. => "<effect>"
  | .error failure => "<error " ++ failure.text ++ ">"

end Value
end ByNeed
