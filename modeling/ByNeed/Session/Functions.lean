import ByNeed.Session.Values

/-!
# Operations on functions, groups and errors
-/

namespace ByNeed
namespace Host

structure FunctionInfo where
  name : String
  arity : Nat
  effectful : Bool
  outline : String

def describeFunction (expr : Expr) : Host FunctionInfo := do
  let callee ← function expr
  return {
    name := callee.name
    arity := callee.signature.arity
    effectful := callee.isEffectful
    outline := callee.outline }

def buildArguments (positionals : List (Passing × Expr))
    (keywords : List (String × Expr)) : Host Arguments := do
  let scope := (← get).scope
  run do
    let positionals ← buildPositionals positionals scope []
    let keywords ← buildKeywords keywords scope []
    return { positionals, keywords }

def keepCall (expr : Expr) (positionals : List (Passing × Expr))
    (keywords : List (String × Expr)) : Host String := do
  let callee ← function expr
  let arguments ← buildArguments positionals keywords
  keep (← run (returning (callee.call arguments)))

def keepFixed (expr : Expr) (positionals : List (Passing × Expr))
    (keywords : List (String × Expr)) : Host String := do
  let callee ← function expr
  let fixed ← buildArguments positionals keywords
  let result ← run (callee.fix fixed)
  keep (← run (newValue (.function result)))

/-- The parameters of a function as they are written. -/
structure Parameters where
  required : List String
  rest : Option String
  optionals : List (String × DefaultMode × Expr)
  restKeywords : Option String

/-- Bind arguments to parameters, keep the list of bound thunks, and tell their
number and states. -/
def bindParameters (parameters : Parameters) (positionals : List (Passing × Expr))
    (keywords : List (String × Expr)) : Host (Nat × List String) := do
  let optionals ← run (buildOptionals parameters.optionals (← get).scope)
  let signature : Signature :=
    { required := parameters.required
      rest := parameters.rest
      optionals
      restKeywords := parameters.restKeywords }
  let arguments ← buildArguments positionals keywords
  let bound ← attempt (signature.bind arguments)
  let states ← bound.mapM outline
  keepList bound
  return (signature.arity, states)

/-- Arguments as they are seen: the state and the manner of each positional, and the
name, the state and the manner of each keyword. -/
structure ArgumentsInfo where
  positionals : List (String × Bool)
  keywords : List (String × String × Bool)

/-- Tell how arguments are seen. -/
def describeArguments (arguments : Arguments) : Host ArgumentsInfo := do
  let positionals ← arguments.positionals.mapM fun argument => do
    return (← outline argument.thunk, argument.isSpread)
  let keywords ← arguments.keywords.mapM fun argument => do
    return (argument.name, ← outline argument.thunk, argument.isSpread)
  return { positionals, keywords }

/-- The names of the prelude, sorted. -/
def preludeNames : Host (List String) := do
  let names ← inspect fun store => store.prelude.map Prod.fst
  return names.mergeSort fun left right => compare left right != .gt

def preludeHas (name : String) : Host Bool :=
  inspect fun store => (store.global? name).isSome

/-- Let the name of a function refer to it from now on. -/
def preludeInsert (expr : Expr) : Host Unit := do
  let callee ← function expr
  change fun store => ((), store.defineGlobal callee)

def newGroup (name : String) (size : Nat) : Host Unit := do
  let group ← run (.perform (.newGroup size))
  modify fun session => { session with groups := Names.set session.groups name group }

def defineCell (name : String) (index : Nat) (expr : Expr) : Host Unit := do
  let group ← find Session.groups name
  let definition ← build expr
  match ← run (.perform (.define group index definition)) with
  | none => return ()
  | some cause => throw (.error cause.error)

def keepReference (name : String) (index : Nat) : Host String := do
  let group ← find Session.groups name
  keep (← run (suspend (.cell group index)))

end Host

/-- The error of a kind with a message.  Two kinds have a message of their own. -/
def Error.ofKindAndMessage (kind : ErrorKind) (message : String) : Error :=
  match kind with
  | .emptyList => Fault.emptyList.error
  | .infiniteLoop => Fault.selfDependence.error
  | _ => Error.ofKind kind message

/-- An error that passed through sites, the last being the outermost. -/
def Error.throughAll (error : Error) (sites : List Site) : Error :=
  sites.foldl Error.through error

end ByNeed
