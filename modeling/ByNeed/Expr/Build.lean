import ByNeed.LazyList

/-!
# Building expressions

Building turns an expression into a thunk, given the names in sight.  It evaluates
nothing.  Parts are built in the order written, which is the order in which
functions and effects receive their identities.
-/

namespace ByNeed

namespace Literal

def value : Literal → Value
  | .nil => .nil
  | .boolean truth => .boolean truth
  | .number x => .number x
  | .string text => .string text

end Literal

/-- Make a function value, told apart by a fresh identity. -/
def newFunction (name : String) (signature : Signature) (effectful : Bool)
    (body : Body) : Code Function := do
  let identity ← .perform .identity
  return .plain identity name signature effectful body

/-- Make a thunk of a fresh effect. -/
def newEffect (payload : Thunk) : Code Thunk := do
  let identity ← .perform .identity
  newValue (.effect identity payload)

/-- The body of a function made from an expression. -/
def Mode.body (mode : Mode) (scope : Scope) (body : Expr) : Body :=
  match mode with
  | .byNeed | .effectful => .lazyExpr scope body
  | .strict => .strictExpr scope body

/-- The positional argument that passes a thunk. -/
def Passing.positional (passing : Passing) (thunk : Thunk) : Positional :=
  match passing with
  | .single => .single thunk
  | .spread => .spread thunk

/-- References to the cells of a group, one for each name. -/
def newReferences (group : Nat) : List String → Nat → Scope → Code Scope
  | [], _, scope => return scope
  | name :: names, index, scope => do
      let reference ← suspend (.cell group index)
      newReferences group names (index + 1) ((name, reference) :: scope)

mutual

/-- Build an expression into a thunk. -/
def build : Expr → Scope → Code Thunk
  | .literal constant, _ => newValue constant.value
  | .name free, scope =>
    match scope.find? free with
    | some thunk => return thunk
    | none => do
        match ← Code.perform (.global free) with
        | some callee => newValue (.function callee)
        | none => .breakOff ("unbound name " ++ free)
  | .list elements, scope => do
      let thunks ← buildAll elements scope []
      newValue (.list (← LazyList.ofThunks thunks))
  | .prepend elements tail, scope => do
      let thunks ← buildAll elements scope []
      let rest ← build tail scope
      LazyList.prepend thunks rest
  | .dictionary entries, scope => do
      let thunks ← buildEntries entries scope []
      suspend (.dictionary thunks)
  | .error title message, _ => newValue (.error { name := title, message })
  | .effect payload, scope => do newEffect (← build payload scope)
  | .call callee positionals keywords site, scope => do
      let functionThunk ← build callee scope
      let positionals ← buildPositionals positionals scope []
      let keywords ← buildKeywords keywords scope []
      suspend (.apply functionThunk { positionals, keywords } site)
  | .function title required rest optionals restKeywords mode body, scope => do
      let optionals ← buildOptionals optionals scope
      let signature : Signature := { required, rest, optionals, restKeywords }
      newValue (.function
        (← newFunction title signature (mode == .effectful) (mode.body scope body)))
  | .letIn bindings body, scope => do
      build body (← buildBindings bindings scope)
  | .letRec bindings body, scope => do
      let group ← Code.perform (.newGroup bindings.length)
      let scope ← newReferences group (bindings.map Prod.fst) 0 scope
      buildDefinitions bindings group 0 scope
      build body scope
  | .suspend body, scope => suspend (.build scope body)
  | .probe note body, scope => suspend (.probe note scope body)
  | .forced body, scope => do suspend (.forced (← build body scope))
  | .outline body, scope => do suspend (.outline (← build body scope))
  | .breakOff message, _ => suspend (.breakOff message)

/-- Build expressions in order.  Those built already are held in reverse. -/
def buildAll : List Expr → Scope → List Thunk → Code (List Thunk)
  | [], _, built => return built.reverse
  | expr :: rest, scope, built => do
      let thunk ← build expr scope
      buildAll rest scope (thunk :: built)

def buildEntries :
    List (Expr × Expr) → Scope → List (Thunk × Thunk) → Code (List (Thunk × Thunk))
  | [], _, built => return built.reverse
  | (key, value) :: rest, scope, built => do
      let keyThunk ← build key scope
      let valueThunk ← build value scope
      buildEntries rest scope ((keyThunk, valueThunk) :: built)

def buildPositionals :
    List (Passing × Expr) → Scope → List Positional → Code (List Positional)
  | [], _, built => return built.reverse
  | (passing, expr) :: rest, scope, built => do
      let thunk ← build expr scope
      buildPositionals rest scope (passing.positional thunk :: built)

def buildKeywords : List (String × Expr) → Scope → List Keyword → Code (List Keyword)
  | [], _, built => return built.reverse
  | (keyword, expr) :: rest, scope, built => do
      let thunk ← build expr scope
      buildKeywords rest scope (Keyword.ofName keyword thunk :: built)

/-- Build the fixed defaults of optional parameters in order. -/
def buildOptionals : List (String × DefaultMode × Expr) → Scope → Code (List Optional)
  | [], _ => return []
  | (parameter, mode, expr) :: rest, scope => do
      let default ←
        match mode with
        | .fixed => do pure (Default.fixed (← build expr scope))
        | .computed => pure (Default.computed scope expr)
      return { name := parameter, default } :: (← buildOptionals rest scope)

/-- Build bindings in order, each in sight of those before it. -/
def buildBindings : List (String × Expr) → Scope → Code Scope
  | [], scope => return scope
  | (bound, expr) :: rest, scope => do
      let thunk ← build expr scope
      buildBindings rest ((bound, thunk) :: scope)

/-- Build the definitions of a group in order, all in sight of the references. -/
def buildDefinitions : List (String × Expr) → Nat → Nat → Scope → Code Unit
  | [], _, _, _ => return ()
  | (_, expr) :: rest, group, index, scope => do
      let thunk ← build expr scope
      let _ ← Code.perform (.define group index thunk)
      buildDefinitions rest group (index + 1) scope

end

end ByNeed
