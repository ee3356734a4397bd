import ByNeed.Code.Action

/-!
# Code

Code is a tree of actions on the store, evaluations of thunks and calls of routines, each followed
by what to do with the reply.  A routine is a piece of code that may call itself.  Naming the
routines keeps code itself finite: unbounded loops are calls.
-/

namespace ByNeed

/-- A value evaluated all the way down, errors in place. -/
inductive View where
  | nil
  | boolean (value : Bool)
  | number (value : Float)
  | string (value : String)
  | list (elements : List View)
  /-- The first elements of a list that goes on. -/
  | longList (elements : List View)
  /-- A list whose spine ends in something that is not a list. -/
  | brokenList (elements : List View) (tail : View)
  /-- Entries in key order. -/
  | dictionary (entries : List (View × View))
  | function (name : String)
  | effect
  | error (failure : Error)

namespace View

/-- Put an element in front of the view of a list. -/
def cons (element : View) : View → View
  | .list elements => .list (element :: elements)
  | .longList elements => .longList (element :: elements)
  | .brokenList elements tail => .brokenList (element :: elements) tail
  | other => .brokenList [element] other

end View

/-- A named piece of code with its parameters. -/
inductive Routine where
  | compare (left right : Value)
  | compareLists (left right : LazyList)
  | hash (value : Value)
  | hashElements (list : LazyList)
  | render (value : Value)
  | renderElements (list : LazyList)
  | elements (list : LazyList)
  | contains (list : LazyList) (value : Value)
  | nth (list : LazyList) (skipped : Nat)
  /-- The elements before a position, and the tail after it. -/
  | cut (list : LazyList) (position : Nat)
  | fold (operation : Arithmetic) (total : Float) (numbers : LazyList)
  | allEqual (value : Value) (list : LazyList)
  /-- Whether the elements go on from a value in an order. -/
  | monotone (order : Monotone) (previous : Value) (list : LazyList)
  /-- Assign alternating keys and values to a dictionary. -/
  | assign (dictionary : Dict) (list : LazyList)
  /-- Merge the dictionaries of a list into a dictionary. -/
  | mergeAll (dictionary : Dict) (list : LazyList)
  /-- Choose among alternating conditions and values. -/
  | choose (branches : Thunk)
  /-- The complete view of a value, with lists cut off at a limit. -/
  | view (value : Value) (limit : Nat)
  /-- The view of a list of which so many elements may still be shown. -/
  | viewList (list : LazyList) (limit room : Nat)
  /-- Start a worker for each source of a rally. -/
  | walk (scheduler : Nat) (spine : Thunk) (channel backlog capacity : Nat)

namespace Routine

/-- What a routine replies. -/
abbrev Reply : Routine → Type
  | .compare .. => Except Error Ordering
  | .compareLists .. => Except Error Ordering
  | .hash _ => Except Error UInt64
  | .hashElements _ => Except Error (List UInt64)
  | .render _ => Except Error String
  | .renderElements _ => Except Error (List String)
  | .elements _ => Except Error (List Thunk)
  | .contains .. => Except Error Bool
  | .nth .. => Except Error (Option Thunk)
  | .cut .. => Except Error (Option (List Thunk × Thunk))
  | .fold .. => Except Error Float
  | .allEqual .. => Except Error Bool
  | .monotone .. => Except Error Bool
  | .assign .. => Except Error Dict
  | .mergeAll .. => Except Error Dict
  | .choose _ => Except Error Thunk
  | .view .. => View
  | .viewList .. => View
  | .walk .. => Unit

end Routine

/-- Code with a result. -/
inductive Code (α : Type) where
  | done (result : α)
  | breakOff (message : String)
  | act (action : Action) (next : action.Reply → Code α)
  | evaluate (thunk : Thunk) (next : Value → Code α)
  | call (routine : Routine) (next : routine.Reply → Code α)

namespace Code

variable {α β γ : Type}

/-- Run code, then more code on its result. -/
def bind : Code α → (α → Code β) → Code β
  | .done result, following => following result
  | .breakOff message, _ => .breakOff message
  | .act action next, following => .act action fun reply => (next reply).bind following
  | .evaluate thunk next, following => .evaluate thunk fun value => (next value).bind following
  | .call routine next, following => .call routine fun reply => (next reply).bind following

instance : Monad Code where
  pure := .done
  bind := bind

@[simp] theorem done_bind (result : α) (following : α → Code β) :
    (done result).bind following = following result := rfl

@[simp] theorem bind_done (code : Code α) : code.bind .done = code := by
  induction code with
  | done result => rfl
  | breakOff message => rfl
  | act action next ih => simp [bind, ih]
  | evaluate thunk next ih => simp [bind, ih]
  | call routine next ih => simp [bind, ih]

theorem bind_assoc (code : Code α) (first : α → Code β) (second : β → Code γ) :
    (code.bind first).bind second = code.bind fun result => (first result).bind second := by
  induction code with
  | done result => rfl
  | breakOff message => rfl
  | act action next ih => simp [bind, ih]
  | evaluate thunk next ih => simp [bind, ih]
  | call routine next ih => simp [bind, ih]

instance : LawfulMonad Code :=
  LawfulMonad.mk'
    Code
    (fun code => bind_done code)
    (fun _ _ => rfl)
    (fun code first second => bind_assoc code first second)

/-- Turn breaking off into a result. -/
def attempt : Code α → Code (Except String α)
  | .done result => .done (.ok result)
  | .breakOff message => .done (.error message)
  | .act action next => .act action fun reply => (next reply).attempt
  | .evaluate thunk next => .evaluate thunk fun value => (next value).attempt
  | .call routine next => .call routine fun reply => (next reply).attempt

def perform (action : Action) : Code action.Reply :=
  .act action .done

/-- Evaluate a thunk, effects included. -/
def evaluated (thunk : Thunk) : Code Value :=
  .evaluate thunk .done

end Code

/-- Code that may fail with an error. -/
abbrev Attempt := ExceptT Error Code

namespace Attempt

variable {α : Type}

/-- Fail for a cause. -/
def fault (cause : Fault) : Attempt α :=
  throw cause.error

/-- The result of a computation that has already succeeded or failed. -/
def ofExcept : Except Error α → Attempt α
  | .ok result => pure result
  | .error error => throw error

/-- Call a routine that may fail. -/
def ofCode (code : Code (Except Error α)) : Attempt α :=
  ExceptT.mk code

end Attempt

/-- Evaluate a thunk purely. -/
def force (thunk : Thunk) : Code Value :=
  .evaluate thunk fun value => .done value.purely

/-- Evaluate a thunk to an effect and run its payload.  Errors pass through. -/
def forceImpure (thunk : Thunk) : Code Value :=
  .evaluate thunk fun
    | .effect _ payload => force payload
    | .error failure => .done (.error failure)
    | other => .done (.fault (.notAnEffect other.kind))

def forceList (thunk : Thunk) : Attempt LazyList := do
  Attempt.ofExcept (← force thunk).toList

def forceDictionary (thunk : Thunk) : Attempt Dict := do
  Attempt.ofExcept (← force thunk).toDictionary

def forceNumber (thunk : Thunk) : Attempt Float := do
  Attempt.ofExcept (← force thunk).toNumber

def newValue (value : Value) : Code Thunk :=
  .perform (.hold value)

def suspend (computation : Suspension) : Code Thunk :=
  .perform (.suspend computation)

end ByNeed
