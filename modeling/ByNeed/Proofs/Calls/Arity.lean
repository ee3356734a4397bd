import ByNeed.Proofs.Calls.Operations

/-!
# As many parameters as there are names

Whatever it is told, binding gives one thunk for each parameter of the signature, or fails.  The
same holds of the names in sight once bindings or references have been made.
-/

namespace ByNeed

open Attempt

variable {α β : Type}

namespace Code

/-- The result of code is of a kind, whatever it is told. -/
def Always (kind : α → Prop) : Code α → Prop
  | .done result => kind result
  | .breakOff _ => True
  | .act _ next => ∀ reply, (next reply).Always kind
  | .evaluate _ next => ∀ value, (next value).Always kind
  | .call _ next => ∀ reply, (next reply).Always kind

variable {kind : α → Prop} {others : β → Prop} {code rest : Code α} {following : α → Code β}

theorem always_of_forall (holds : ∀ result, kind result) (code : Code α) : code.Always kind := by
  induction code with
  | done result => exact holds result
  | breakOff message => trivial
  | act action next ih | evaluate thunk next ih | call routine next ih => exact ih

theorem Always.bind (always : code.Always kind)
    (then_ : ∀ result, kind result → (following result).Always others) :
    (code >>= following).Always others := by
  induction code with
  | done result => exact then_ result always
  | breakOff message => trivial
  | act action next ih | call routine next ih =>
    exact fun reply => ih reply (always reply)
  | evaluate thunk next ih =>
    exact fun value => ih value (always value)

/-- Where nothing is known of the first part. -/
theorem always_bind (code : Code α) (then_ : ∀ result, (following result).Always others) :
    (code >>= following).Always others :=
  (always_of_forall (fun _ => trivial) code).bind fun result (_ : True) => then_ result

theorem Always.after (always : code.Always kind) (after : code.After asked rest) :
    rest.Always kind := by
  induction after with
  | start code => exact always
  | act reply _ ih => exact ih (always reply)
  | evaluate answer _ ih => exact ih (always answer)
  | @call routine next _ _ _ ih =>
    exact ih (always_bind routine.body always)

theorem Obeys.and_always (obeys : code.Obeys regime kind) (always : code.Always further) :
    code.Obeys regime fun result => kind result ∧ further result := by
  induction code with
  | done result => exact ⟨obeys, always⟩
  | breakOff message => exact obeys
  | act action next ih | call routine next ih =>
    exact ⟨obeys.1, fun reply told =>
      ih reply (obeys.2 reply told) (always reply)⟩
  | evaluate thunk next ih =>
    exact fun value valueFits =>
      ih value (obeys value valueFits) (always value)

end Code

namespace Attempt

variable {kind : α → Prop} {others : β → Prop} {attempt : Attempt α} {following : α → Attempt β}

/-- The result of an attempt that succeeds is of a kind, whatever it is told. -/
def Always (kind : α → Prop) (attempt : Attempt α) : Prop :=
  attempt.run.Always fun outcome => ∀ result, outcome = .ok result → kind result

theorem always_pure (isKind : kind result) : (pure result : Attempt α).Always kind :=
  fun _ same => Except.ok.inj same ▸ isKind

theorem always_throw (failure : Error) : (throw failure : Attempt α).Always kind :=
  fun _ same => by cases same

theorem Always.bind (always : attempt.Always kind)
    (then_ : ∀ result, kind result → (following result).Always others) :
    (attempt >>= following).Always others := by
  refine Code.Always.bind always fun outcome isKind => ?_
  cases outcome with
  | ok result => exact then_ result (isKind result rfl)
  | error failure => exact always_throw failure

/-- Where nothing is known of the first part. -/
theorem always_bind (attempt : Attempt α) (then_ : ∀ result, (following result).Always others) :
    (attempt >>= following).Always others := by
  refine Code.always_bind attempt.run fun outcome => ?_
  cases outcome with
  | ok result => exact then_ result
  | error failure => exact always_throw failure

theorem always_lift (always : code.Always kind) : Always kind (ExceptT.lift code) :=
  always.bind fun _ isKind => always_pure isKind

theorem Always.of_yields (always : attempt.Always kind)
    (yields : attempt.Yields asked (.ok result)) : kind result :=
  Code.Always.after always yields result rfl

theorem Obeys.and_always (obeys : attempt.Obeys regime kind) (always : attempt.Always further) :
    attempt.Obeys regime fun result => kind result ∧ further result := by
  refine Code.Obeys.weaken (Code.Obeys.and_always obeys always) ?_
  rintro (failure | result) ⟨grants, isKind⟩
  · exact grants
  · exact ⟨grants, isKind result rfl⟩

end Attempt

/-! ## Binding -/

theorem bindRequired_always (parameters : List String) (positionals : List Positional) :
    (bindRequired parameters positionals).Always fun bound =>
      bound.1.length = parameters.length := by
  induction parameters generalizing positionals with
  | nil => exact always_pure rfl
  | cons parameter parameters ih =>
    refine always_bind _ fun pulled => ?_
    rcases pulled with _ | ⟨value, remaining⟩
    · exact always_throw _
    · exact (ih remaining).bind fun _ length_eq =>
        always_pure (congrArg (· + 1) length_eq)

theorem bindRest_always (rest : Option String) (positionals : List Positional) :
    (bindRest rest positionals).Always fun bound => bound.length = rest.toList.length := by
  cases rest with
  | some name => exact always_bind _ fun _ => always_pure rfl
  | none =>
    refine always_bind _ fun pulled => ?_
    cases pulled with
    | none => exact always_pure rfl
    | some _ => exact always_throw _

theorem bindOptionals_always (names : List String) (optionals : List Optional) (bound : List Thunk)
    (keywords : Keywords) :
    (bindOptionals names optionals bound keywords).Always fun filled =>
      filled.1.length = bound.length + optionals.length := by
  induction optionals generalizing bound keywords with
  | nil => exact rfl
  | cons optional rest ih =>
    have longer : ∀ (value : Thunk) (keywords : Keywords),
        (bindOptionals names rest (bound ++ [value]) keywords).Always fun filled =>
          filled.1.length = bound.length + (optional :: rest).length := by
      intro value keywords
      have filled := ih (bound ++ [value]) keywords
      simpa [Nat.add_assoc, Nat.add_comm 1] using filled
    rw [bindOptionals]
    split
    · exact longer _ _
    · exact Code.always_bind _ fun value => longer value keywords

theorem bindRestKeywords_always (rest : Option String) (keywords : Keywords) :
    (bindRestKeywords rest keywords).Always fun bound => bound.length = rest.toList.length := by
  cases rest with
  | some name =>
    exact always_bind _ fun _ => always_bind _ fun _ => always_pure rfl
  | none =>
    simp only [bindRestKeywords]
    split
    · exact always_pure rfl
    · exact always_throw _

/-- Binding gives one thunk for each parameter. -/
theorem Signature.bind_always (signature : Signature) (arguments : Arguments) :
    (signature.bind arguments).Always fun bound => bound.length = signature.arity := by
  refine (bindRequired_always _ _).bind fun required required_eq => ?_
  refine (bindRest_always _ _).bind fun rest rest_eq => always_bind _ fun keywords => ?_
  refine (always_lift (bindOptionals_always _ _ _ _)).bind fun filled filled_eq => ?_
  refine (bindRestKeywords_always _ _).bind fun last last_eq => always_pure ?_
  simp only [arity, List.length_append, required_eq, rest_eq, filled_eq, last_eq]

/-! ## Scopes -/

theorem newReferences_always (group : Nat) (names : List String) (index : Nat) (scope : Scope) :
    (newReferences group names index scope).Always fun inner =>
      inner.names = names.reverse ++ scope.names := by
  induction names generalizing index scope with
  | nil => exact rfl
  | cons name names ih =>
    refine Code.always_bind _ fun reference => ?_
    have referred := ih (index + 1) ((name, reference) :: scope)
    simpa [Scope.names] using referred

theorem buildBindings_always (bindings : List (String × Expr)) (scope : Scope) :
    (buildBindings bindings scope).Always fun inner =>
      inner.names = (bindings.map Prod.fst).reverse ++ scope.names := by
  induction bindings generalizing scope with
  | nil => exact rfl
  | cons binding rest ih =>
    refine Code.always_bind _ fun thunk => ?_
    have bound := ih ((binding.1, thunk) :: scope)
    simpa [Scope.names] using bound

end ByNeed
