import ByNeed.Machine.Thread
import ByNeed.Prelude

/-!
# What fits together

A function fits if its body can do with the parameters its signature binds, a value if the functions
in it do, and a suspended computation if what it will run does.  An allowance says which ways to
break off and which errors a program is granted; the ordinary faults of the evaluator are always
granted.
-/

namespace ByNeed

/-- What is granted to a program: the messages with which its computations may break off, and
the names and messages of the errors that may occur. -/
structure Allowance where
  breaks : String → Prop
  admits : String → String → Prop
  ordinary : ∀ cause : Fault, cause.kind ≠ .internal → admits cause.kind.name cause.message
  broken : ∀ message, breaks message → admits ErrorKind.internal.name message

namespace Allowance

/-- An error may occur.  Its trace makes no difference. -/
def Admits (allowance : Allowance) (error : Error) : Prop :=
  allowance.admits error.name error.message

end Allowance

/-! ## Primitives -/

/-- How many parameters a primitive takes. -/
def LazyPrimitive.arity : LazyPrimitive → Nat
  | .assign | .merge | .reduce _ => 2
  | .fixArguments => 3
  | _ => 1

/-- How many parameters a primitive takes. -/
def StrictPrimitive.arity : StrictPrimitive → Nat
  | .first | .rest | .size | .toList | .toString | .dump => 1
  | .index | .includes | .delete | .compare | .remainder | .power | .error => 2

/-- A primitive takes so many parameters, unless it may break off over them, and its own errors
may occur: a rally fails on a scheduler that does not run. -/
structure LazyPrimitive.Fits (allowance : Allowance) (count : Nat)
    (operation : LazyPrimitive) : Prop where
  takes : count = operation.arity ∨ allowance.breaks "parameters do not fit"
  idle : ∀ scheduler, operation = .rally scheduler → allowance.Admits Fault.idleScheduler.error

/-- A primitive takes so many parameters, unless it may break off over them, and its own errors
may occur: raising an error may give any. -/
structure StrictPrimitive.Fits (allowance : Allowance) (count : Nat)
    (operation : StrictPrimitive) : Prop where
  takes : count = operation.arity ∨ allowance.breaks "parameters do not fit"
  raises : operation = .error → ∀ name message, allowance.admits name message

/-- A function that some name may refer to. -/
def PreludeEntry.IsStandard (entry : PreludeEntry) : Prop :=
  entry ∈ Prelude.entries ∨ ∃ scheduler, entry = Prelude.rally scheduler

/-- The body of a standard function can do with the parameters of the signature. -/
def PreludeEntry.Fits (allowance : Allowance) (entry : PreludeEntry) : Prop :=
  match entry.body with
  | .lazyPrimitive operation => operation.Fits allowance entry.signature.arity
  | .strictPrimitive operation => operation.Fits allowance entry.signature.arity
  | _ => False

/-- A free name refers to a function that fits, or may break off. -/
structure Allowance.Offers (allowance : Allowance) (name : String) : Prop where
  fits : ∀ entry : PreludeEntry, entry.IsStandard → entry.name = name → entry.Fits allowance
  found : (∃ entry ∈ Prelude.entries, entry.name = name) ∨
    allowance.breaks ("unbound name " ++ name)

/-! ## Expressions -/

mutual

/-- An expression knows the names it uses, and does nothing that is not granted.  The names
are those in sight, the innermost first. -/
def Expr.Fits (allowance : Allowance) : Expr → List String → Prop
  | .literal _, _ => True
  | .name free, known => free ∈ known ∨ allowance.Offers free
  | .list elements, known => ElementsFit allowance elements known
  | .prepend elements tail, known =>
    ElementsFit allowance elements known ∧ tail.Fits allowance known
  | .dictionary entries, known => EntriesFit allowance entries known
  | .error title message, _ => allowance.admits title message
  | .effect payload, known => payload.Fits allowance known
  | .call callee positionals keywords _, known =>
    callee.Fits allowance known ∧ PositionalsFit allowance positionals known ∧
      KeywordsFit allowance keywords known
  | .function _ required rest optionals restKeywords _ body, known =>
    OptionalExprsFit allowance optionals known (required ++ rest.toList) ∧
      body.Fits allowance
        ((required ++ rest.toList ++ optionals.map Prod.fst ++ restKeywords.toList).reverse ++
          known)
  | .letIn bindings body, known =>
    BindingsFit allowance bindings known ∧
      body.Fits allowance ((bindings.map Prod.fst).reverse ++ known)
  | .letRec bindings body, known =>
    KeywordsFit allowance bindings ((bindings.map Prod.fst).reverse ++ known) ∧
      body.Fits allowance ((bindings.map Prod.fst).reverse ++ known)
  | .suspend body, known => body.Fits allowance known
  | .probe _ body, known => body.Fits allowance known
  | .forced body, known => body.Fits allowance known
  | .outline body, known => body.Fits allowance known
  | .breakOff message, _ => allowance.breaks message

/-- Expressions that are all built in sight of the same names. -/
def ElementsFit (allowance : Allowance) : List Expr → List String → Prop
  | [], _ => True
  | expr :: rest, known => expr.Fits allowance known ∧ ElementsFit allowance rest known

/-- Keys and values that are all built in sight of the same names. -/
def EntriesFit (allowance : Allowance) : List (Expr × Expr) → List String → Prop
  | [], _ => True
  | (key, value) :: rest, known =>
    key.Fits allowance known ∧ value.Fits allowance known ∧ EntriesFit allowance rest known

/-- Arguments that are all built in sight of the same names. -/
def PositionalsFit (allowance : Allowance) : List (Passing × Expr) → List String → Prop
  | [], _ => True
  | (_, expr) :: rest, known => expr.Fits allowance known ∧ PositionalsFit allowance rest known

/-- Named expressions that are all built in sight of the same names. -/
def KeywordsFit (allowance : Allowance) : List (String × Expr) → List String → Prop
  | [], _ => True
  | (_, expr) :: rest, known => expr.Fits allowance known ∧ KeywordsFit allowance rest known

/-- Defaults of optional parameters.  A computed one sees the parameters before it. -/
def OptionalExprsFit (allowance : Allowance) :
    List (String × DefaultMode × Expr) → List String → List String → Prop
  | [], _, _ => True
  | (parameter, mode, expr) :: rest, known, before =>
    (match mode with
    | .fixed => expr.Fits allowance known
    | .computed => expr.Fits allowance (before.reverse ++ known)) ∧
      OptionalExprsFit allowance rest known (before ++ [parameter])

/-- Bindings, each of which sees those before it. -/
def BindingsFit (allowance : Allowance) : List (String × Expr) → List String → Prop
  | [], _ => True
  | (bound, expr) :: rest, known =>
    expr.Fits allowance known ∧ BindingsFit allowance rest (bound :: known)

end

/-! ## Functions and values -/

/-- The names in sight, the innermost first. -/
def Scope.names (scope : Scope) : List String :=
  scope.map Prod.fst

/-- A default knows the names it uses, in sight of the parameters before it. -/
def Default.Fits (allowance : Allowance) (before : List String) : Default → Prop
  | .fixed _ => True
  | .computed scope body => body.Fits allowance (before.reverse ++ scope.names)

/-- Optional parameters behind others. -/
def OptionalsFit (allowance : Allowance) : List String → List Optional → Prop
  | _, [] => True
  | before, optional :: rest =>
    optional.default.Fits allowance before ∧ OptionalsFit allowance (before ++ [optional.name]) rest

/-- The defaults of a signature fit. -/
def Signature.Fits (allowance : Allowance) (signature : Signature) : Prop :=
  OptionalsFit allowance (signature.required ++ signature.rest.toList) signature.optionals

/-- A body can do with parameters of some names. -/
def Body.Fits (allowance : Allowance) (names : List String) : Body → Prop
  | .lazyPrimitive operation => operation.Fits allowance names.length
  | .strictPrimitive operation => operation.Fits allowance names.length
  | .lazyExpr scope body => body.Fits allowance (names.reverse ++ scope.names)
  | .strictExpr scope body => body.Fits allowance (names.reverse ++ scope.names)

/-- A body can do with a number of parameters, which have the first of some names. -/
def Body.Suits (allowance : Allowance) (names : List String) (count : Nat) : Body → Prop
  | .lazyPrimitive operation => operation.Fits allowance count
  | .strictPrimitive operation => operation.Fits allowance count
  | .lazyExpr scope body => body.Fits allowance ((names.take count).reverse ++ scope.names)
  | .strictExpr scope body => body.Fits allowance ((names.take count).reverse ++ scope.names)

theorem Body.suits_length {body : Body} :
    body.Suits allowance names names.length ↔ body.Fits allowance names := by
  cases body with
  | lazyPrimitive | strictPrimitive => exact Iff.rfl
  | lazyExpr | strictExpr => rw [Suits, List.take_length, Fits]

/-- The body of a function can do with the parameters that the signature binds. -/
def Function.Fits (allowance : Allowance) : Function → Prop
  | .plain _ _ signature _ body => signature.Fits allowance ∧ body.Fits allowance signature.names
  | .fixing _ target _ => target.Fits allowance

/-- The functions and the errors in a value fit. -/
inductive Value.Fits (allowance : Allowance) : Value → Prop
  | nil : Fits allowance .nil
  | boolean (truth : Bool) : Fits allowance (.boolean truth)
  | number (result : Float) : Fits allowance (.number result)
  | string (text : String) : Fits allowance (.string text)
  | list (cells : LazyList) : Fits allowance (.list cells)
  | dictionary {entries : Dict} (keys : ∀ entry ∈ entries.toList, Fits allowance entry.1) :
      Fits allowance (.dictionary entries)
  | function {callee : Function} (fits : callee.Fits allowance) : Fits allowance (.function callee)
  | effect (identity : Nat) (payload : Thunk) : Fits allowance (.effect identity payload)
  | error {failure : Error} (admits : allowance.Admits failure) : Fits allowance (.error failure)

attribute [grind ←] Value.Fits.nil Value.Fits.boolean Value.Fits.number Value.Fits.string
  Value.Fits.list Value.Fits.effect

/-- The keys of a dictionary fit. -/
def Dictionary.Fits (allowance : Allowance) (dict : Dict) : Prop :=
  ∀ entry ∈ dict.toList, entry.1.Fits allowance

namespace Value

variable {allowance : Allowance}

@[simp, grind =]
theorem fits_dictionary : (dictionary entries).Fits allowance ↔ entries.Fits allowance :=
  ⟨fun | .dictionary keys => keys, .dictionary⟩

@[simp, grind =]
theorem fits_function : (function callee).Fits allowance ↔ callee.Fits allowance :=
  ⟨fun | .function fits => fits, .function⟩

@[simp, grind =]
theorem fits_error {failure : Error} : (error failure).Fits allowance ↔ allowance.Admits failure :=
  ⟨fun | .error admits => admits, .error⟩

end Value

/-! ## The store and what is done to it -/

/-- What a suspended computation will run fits. -/
def Suspension.Fits (allowance : Allowance) : Suspension → Prop
  | .invoke body names bound => body.Fits allowance names ∧ bound.length = names.length
  | .build scope body => body.Fits allowance scope.names
  | .probe _ scope body => body.Fits allowance scope.names
  | .breakOff message => allowance.breaks message
  | _ => True

/-- What a suspended computation will run can do with the parameters it is given. -/
def Suspension.Suits (allowance : Allowance) : Suspension → Prop
  | .invoke body names bound => body.Suits allowance names bound.length
  | computation => computation.Fits allowance

theorem Suspension.Fits.suits {computation : Suspension} (fits : computation.Fits allowance) :
    computation.Suits allowance := by
  cases computation with
  | invoke body names bound =>
    rw [Suits, fits.2]
    exact Body.suits_length.mpr fits.1
  | _ => exact fits

/-- The error that a message carries may occur. -/
def Message.Fits (allowance : Allowance) : Message → Prop
  | .item _ => True
  | .failure error => allowance.Admits error

/-- The error that a daemon fails with may occur. -/
def Duty.Fits (allowance : Allowance) : Duty → Prop
  | .feed _ failure _ => ∀ error, failure = some error → allowance.Admits error
  | _ => True

/-- What an action is given fits. -/
def Action.Fits (allowance : Allowance) : Action → Prop
  | .hold value => value.Fits allowance
  | .suspend computation => computation.Fits allowance
  | .send _ message => message.Fits allowance
  | _ => True

/-- What an action replies fits.  A free name refers to a standard function of this name, and
the names of the prelude always refer to one. -/
def Action.Told (allowance : Allowance) : (action : Action) → action.Reply → Prop
  | .global name, none =>
    allowance.breaks ("unbound name " ++ name) ∨ ∀ entry ∈ Prelude.entries, entry.name ≠ name
  | .global name, some callee =>
    callee.Fits allowance ∨ ∃ entry : PreludeEntry, entry.IsStandard ∧ entry.name = name ∧
      ∃ identity, callee = .plain identity entry.name entry.signature false entry.body
  | .receive _, .failure error => allowance.Admits error
  | _, _ => True

/-- A result is of a kind, or the error in its place may occur. -/
def Allowance.Grants {α : Type} (allowance : Allowance) (kind : α → Prop) : Except Error α → Prop
  | .ok result => kind result
  | .error failure => allowance.Admits failure

/-- What a routine is given fits. -/
def Routine.Fits (allowance : Allowance) : Routine → Prop
  | .compare left right => left.Fits allowance ∧ right.Fits allowance
  | .hash value => value.Fits allowance
  | .render value => value.Fits allowance
  | .contains _ value => value.Fits allowance
  | .allEqual value _ => value.Fits allowance
  | .monotone _ previous _ => previous.Fits allowance
  | .assign dict _ => dict.Fits allowance
  | .mergeAll dict _ => dict.Fits allowance
  | .view value _ => value.Fits allowance
  | _ => True

/-- What a routine replies fits. -/
def Routine.Told (allowance : Allowance) : (routine : Routine) → routine.Reply → Prop
  | .compare .., reply => allowance.Grants (fun _ => True) reply
  | .compareLists .., reply => allowance.Grants (fun _ => True) reply
  | .hash _, reply => allowance.Grants (fun _ => True) reply
  | .hashElements _, reply => allowance.Grants (fun _ => True) reply
  | .render _, reply => allowance.Grants (fun _ => True) reply
  | .renderElements _, reply => allowance.Grants (fun _ => True) reply
  | .elements _, reply => allowance.Grants (fun _ => True) reply
  | .contains .., reply => allowance.Grants (fun _ => True) reply
  | .nth .., reply => allowance.Grants (fun _ => True) reply
  | .cut .., reply => allowance.Grants (fun _ => True) reply
  | .fold .., reply => allowance.Grants (fun _ => True) reply
  | .allEqual .., reply => allowance.Grants (fun _ => True) reply
  | .monotone .., reply => allowance.Grants (fun _ => True) reply
  | .assign .., reply => allowance.Grants (Dictionary.Fits allowance) reply
  | .mergeAll .., reply => allowance.Grants (Dictionary.Fits allowance) reply
  | .choose _, reply => allowance.Grants (fun _ => True) reply
  | .view .., _ => True
  | .viewList .., _ => True
  | .walk .., _ => True

end ByNeed
