import ByNeed.Machine.World
import ByNeed.Options.Basic
import ByNeed.Prelude
import ByNeed.Program

/-!
# Sessions

In a session a host works with one world, one operation after the other.  The host
refers to what it has made by names: thunks it has bound, recursive groups,
programs, channels, schedulers.  An operation that fails leaves all names as they
were.  A symbol generator hands out names that it has not handed out before: a fixed
beginning followed by the numerals from zero on.
-/

namespace ByNeed

/-- Things known under names, the latest first. -/
abbrev Names (α : Type) := List (String × α)

namespace Names

variable {α : Type}

def set (names : Names α) (name : String) (value : α) : Names α :=
  (name, value) :: names.filter fun entry => entry.1 != name

def erase (names : Names α) (name : String) : Names α :=
  names.filter fun entry => entry.1 != name

end Names

/-- A source of fresh names. -/
structure Symbols where
  /-- What every name begins with. -/
  start : String := "$"
  /-- The number of the next name. -/
  next : UInt64 := 0

namespace Symbols

def take (symbols : Symbols) : String × Symbols :=
  (symbols.start ++ toString symbols.next.toNat, { symbols with next := symbols.next + 1 })

def reset (symbols : Symbols) : Symbols :=
  { symbols with next := 0 }

end Symbols

/-- The reading end of a channel. -/
structure Reader where
  channel : Nat
  /-- What is yet to be read. -/
  cursor : Thunk
  /-- Whether the list was dropped. -/
  dropped : Bool := false

/-- What a host needs to run programs. -/
structure Runtime where
  options : Options
  scheduler : Nat
  /-- The place of the symbol generator. -/
  symbols : Nat

/-- What a host has made so far. -/
structure Session where
  scope : Scope := []
  /-- The names bound directly to effects. -/
  effects : List String := []
  /-- How many elements of a list are shown. -/
  limit : Nat := 1000
  groups : Names Nat := []
  programs : Names Program := []
  generators : Array Symbols := #[]
  generatorNames : Names Nat := []
  publishers : Names Nat := []
  readers : Names Reader := []
  schedulers : Names Nat := []
  /-- The scheduler that everyone shares, once it was asked for. -/
  sharedScheduler : Option Nat := none
  runtime : Option Runtime := none

/-- Whether an expression is an effect on sight: written as one, or a name bound to
one. -/
def Session.seesEffect (session : Session) : Expr → Bool
  | .effect _ => true
  | .name name => session.effects.contains name
  | _ => false

/-- Why an operation has no result. -/
inductive Refusal where
  | error (failure : Error)
  /-- Nothing is known under a name. -/
  | unknown (name : String)
  /-- An argument is not what the operation takes. -/
  | unfit
  | brokeOff (message : String)
  | stuck
  | exhausted

/-- An operation of the host. -/
abbrev Host := ExceptT Refusal (StateT Session (StateM World))

namespace Host

variable {α : Type}

/-- The bound on the steps of one operation. -/
def fuel : Nat := 1000000000000000

/-- Run code in the world of the session. -/
def run (code : Code α) : Host α := do
  match ← ExceptT.lift (StateT.lift fun world => world.run fuel code) with
  | .result result => return result
  | .brokeOff message => throw (.brokeOff message)
  | .stuck => throw .stuck
  | .exhausted => throw .exhausted

/-- Run code that may fail. -/
def attempt (code : Attempt α) : Host α := do
  match ← run code.run with
  | .ok result => return result
  | .error failure => throw (.error failure)

def inspect (look : Store → α) : Host α :=
  ExceptT.lift (StateT.lift fun world => (look world.store, world))

def change (update : Store → α × Store) : Host α :=
  ExceptT.lift (StateT.lift fun world =>
    let (result, store) := update world.store
    (result, { world with store }))

/-- What is known under a name. -/
def find (select : Session → Names α) (name : String) : Host α := do
  match (select (← get)).lookup name with
  | some value => return value
  | none => throw (.unknown name)

/-- Build an expression, in sight of the names the host has bound. -/
def build (expr : Expr) : Host Thunk := do
  run (ByNeed.build expr (← get).scope)

/-- Build an expression and evaluate it purely. -/
def force (expr : Expr) : Host Value := do
  run (ByNeed.force (← build expr))

/-- The value of an expression.  Expressions that are effects on sight are not
evaluated purely but stand for themselves. -/
def value (expr : Expr) : Host Value := do
  let thunk ← build expr
  if (← get).seesEffect expr then
    run (.evaluated thunk)
  else
    run (ByNeed.force thunk)

def list (expr : Expr) : Host LazyList := do
  attempt (.ofExcept (← force expr).toList)

def dictionary (expr : Expr) : Host Dict := do
  attempt (.ofExcept (← force expr).toDictionary)

def function (expr : Expr) : Host Function := do
  attempt (.ofExcept (← force expr).toFunction)

def outline (thunk : Thunk) : Host String :=
  inspect fun store => (store.slot thunk).outline

def view (value : Value) : Host View := do
  run (viewValue value (← get).limit)

def bind (name : String) (thunk : Thunk) : Host Unit :=
  modify fun session =>
    { session with
      scope := Names.set session.scope name thunk
      effects := session.effects.filter (· != name) }

/-- The name of the last result kept. -/
def lastName : String := "_"

/-- Keep a thunk as the last result and tell its state. -/
def keep (thunk : Thunk) : Host String := do
  bind lastName thunk
  outline thunk

/-- The notes left since the last time they were taken. -/
def takeLog : Host (List String) :=
  change fun store => (store.log.toList, { store with log := #[] })

end Host

namespace Session

/-- A world with nothing but the prelude. -/
def newWorld : World :=
  { store := Store.installPrelude { digest := Digest.multiplicative } }

/-- Run operations in a new session, in which the last result kept is nil. -/
def run {α : Type} (limit : Nat) (operations : Host α) : Except Refusal α :=
  let begin : Host Unit := do
    Host.bind Host.lastName (← Host.run (newValue .nil))
  let all : Host α := do
    begin
    operations
  (((ExceptT.run all).run { limit }).run newWorld).1.1

end Session
end ByNeed
