import ByNeed.Proofs.Calls.Fitting

/-!
# Allowances

Three allowances are of interest: the one that grants everything, the one that grants every error
but not to break off, and the one under which no error is internal either.
-/

namespace ByNeed

theorem ErrorKind.eq_internal_of_name {kind : ErrorKind} (same : kind.name = internal.name) :
    kind = .internal := by
  revert same
  cases kind <;> decide

namespace Allowance

/-- Everything is granted. -/
def everything : Allowance where
  breaks _ := True
  admits _ _ := True
  ordinary _ _ := trivial
  broken _ _ := trivial

/-- Any error may occur, but nothing breaks off. -/
def unbroken : Allowance where
  breaks _ := False
  admits _ _ := True
  ordinary _ _ := trivial
  broken _ breaks := breaks.elim

/-- No error is internal, and nothing breaks off. -/
def external : Allowance where
  breaks _ := False
  admits name _ := name ≠ ErrorKind.internal.name
  ordinary _ ordinary := fun same => ordinary (ErrorKind.eq_internal_of_name same)
  broken _ breaks := breaks.elim

end Allowance

/-- Whether a standard function takes as many parameters as it binds.  The one that raises
errors is known by its name, and none needs a scheduler. -/
def PreludeEntry.isOrdinary (entry : PreludeEntry) : Bool :=
  match entry.body with
  | .lazyPrimitive (.rally _) => false
  | .lazyPrimitive operation => entry.signature.arity == operation.arity
  | .strictPrimitive .error => entry.signature.arity == 2 && entry.name == "error"
  | .strictPrimitive operation => entry.signature.arity == operation.arity
  | _ => false

theorem Prelude.isOrdinary : ∀ entry ∈ Prelude.entries, entry.isOrdinary = true := by
  decide

namespace PreludeEntry

variable {allowance : Allowance} {entry : PreludeEntry}

theorem fits_of_isOrdinary (ordinary : entry.isOrdinary = true)
    (raises : entry.name = "error" → ∀ name message, allowance.admits name message) :
    entry.Fits allowance := by
  unfold isOrdinary at ordinary
  unfold PreludeEntry.Fits
  split at ordinary
  · cases ordinary
  · rename_i operation notRally body_eq
    rw [body_eq]
    exact ⟨.inl (beq_iff_eq.mp ordinary), fun scheduler same => absurd same (notRally scheduler)⟩
  · rename_i body_eq
    simp only [Bool.and_eq_true, beq_iff_eq] at ordinary
    rw [body_eq]
    exact ⟨.inl ordinary.1, fun _ => raises ordinary.2⟩
  · rename_i operation notError body_eq
    rw [body_eq]
    exact ⟨.inl (beq_iff_eq.mp ordinary), fun same => absurd same notError⟩
  · cases ordinary

end PreludeEntry

theorem Prelude.offers {allowance : Allowance}
    (listed : name ∈ Prelude.entries.map PreludeEntry.name)
    (raises : name = "error" → ∀ name message, allowance.admits name message) :
    allowance.Offers name where
  fits entry standard same := by
    rcases standard with isListed | ⟨scheduler, rfl⟩
    · exact PreludeEntry.fits_of_isOrdinary (Prelude.isOrdinary entry isListed) (same ▸ raises)
    · subst same
      have unlisted : "rally" ∉ Prelude.entries.map PreludeEntry.name := by decide
      exact absurd listed unlisted
  found := .inl (List.mem_map.mp listed)

/-! ## Everything fits where everything is granted -/

theorem Allowance.everything_offers (name : String) : everything.Offers name where
  fits entry standard _ := by
    rcases standard with listed | ⟨scheduler, rfl⟩
    · exact PreludeEntry.fits_of_isOrdinary (Prelude.isOrdinary entry listed) fun _ _ _ => trivial
    · exact ⟨.inl rfl, fun _ _ => trivial⟩
  found := .inr trivial

mutual

theorem Expr.fits_everything (expr : Expr) (known : List String) : expr.Fits .everything known := by
  cases expr with
  | name free => unfold Expr.Fits; exact .inr (Allowance.everything_offers free)
  | list elements => unfold Expr.Fits; exact elementsFit_everything elements known
  | prepend elements tail =>
    unfold Expr.Fits
    exact ⟨elementsFit_everything elements known, tail.fits_everything known⟩
  | dictionary entries => unfold Expr.Fits; exact entriesFit_everything entries known
  | effect payload => unfold Expr.Fits; exact payload.fits_everything known
  | call callee positionals keywords site =>
    unfold Expr.Fits
    exact ⟨callee.fits_everything known, positionalsFit_everything positionals known,
      keywordsFit_everything keywords known⟩
  | function title required rest optionals restKeywords mode body =>
    unfold Expr.Fits
    exact ⟨optionalExprsFit_everything optionals known _, body.fits_everything _⟩
  | letIn bindings body =>
    unfold Expr.Fits
    exact ⟨bindingsFit_everything bindings known, body.fits_everything _⟩
  | letRec bindings body =>
    unfold Expr.Fits
    exact ⟨keywordsFit_everything bindings _, body.fits_everything _⟩
  | suspend body | probe note body | forced body | outline body =>
    unfold Expr.Fits; exact body.fits_everything known
  | _ => unfold Expr.Fits; trivial

theorem elementsFit_everything (elements : List Expr) (known : List String) :
    ElementsFit .everything elements known := by
  cases elements with
  | nil => unfold ElementsFit; trivial
  | cons expr rest =>
    unfold ElementsFit
    exact ⟨expr.fits_everything known, elementsFit_everything rest known⟩

theorem entriesFit_everything (entries : List (Expr × Expr)) (known : List String) :
    EntriesFit .everything entries known := by
  cases entries with
  | nil => unfold EntriesFit; trivial
  | cons entry rest =>
    obtain ⟨key, value⟩ := entry
    unfold EntriesFit
    exact ⟨key.fits_everything known, value.fits_everything known, entriesFit_everything rest known⟩

theorem positionalsFit_everything (positionals : List (Passing × Expr)) (known : List String) :
    PositionalsFit .everything positionals known := by
  cases positionals with
  | nil => unfold PositionalsFit; trivial
  | cons argument rest =>
    obtain ⟨passing, expr⟩ := argument
    unfold PositionalsFit
    exact ⟨expr.fits_everything known, positionalsFit_everything rest known⟩

theorem keywordsFit_everything (keywords : List (String × Expr)) (known : List String) :
    KeywordsFit .everything keywords known := by
  cases keywords with
  | nil => unfold KeywordsFit; trivial
  | cons argument rest =>
    obtain ⟨keyword, expr⟩ := argument
    unfold KeywordsFit
    exact ⟨expr.fits_everything known, keywordsFit_everything rest known⟩

theorem optionalExprsFit_everything (optionals : List (String × DefaultMode × Expr))
    (known before : List String) : OptionalExprsFit .everything optionals known before := by
  cases optionals with
  | nil => unfold OptionalExprsFit; trivial
  | cons optional rest =>
    obtain ⟨parameter, mode, expr⟩ := optional
    unfold OptionalExprsFit
    refine ⟨?_, optionalExprsFit_everything rest known _⟩
    cases mode <;> exact expr.fits_everything _

theorem bindingsFit_everything (bindings : List (String × Expr)) (known : List String) :
    BindingsFit .everything bindings known := by
  cases bindings with
  | nil => unfold BindingsFit; trivial
  | cons binding rest =>
    obtain ⟨bound, expr⟩ := binding
    unfold BindingsFit
    exact ⟨expr.fits_everything known, bindingsFit_everything rest _⟩

end

theorem OptionalsFit.of_everything (before : List String) (optionals : List Optional) :
    OptionalsFit .everything before optionals := by
  induction optionals generalizing before with
  | nil => trivial
  | cons optional rest ih =>
    refine ⟨?_, ih _⟩
    cases optional.default with
    | fixed thunk => trivial
    | computed scope body => exact body.fits_everything _

theorem Body.suits_everything (body : Body) (names : List String) (count : Nat) :
    body.Suits .everything names count := by
  cases body with
  | lazyPrimitive operation => exact ⟨.inr trivial, fun _ _ => trivial⟩
  | strictPrimitive operation => exact ⟨.inr trivial, fun _ _ _ => trivial⟩
  | lazyExpr scope expr | strictExpr scope expr => exact expr.fits_everything _

theorem Function.fits_everything (callee : Function) : callee.Fits .everything := by
  induction callee with
  | fixing identity target fixed ih => exact ih
  | plain identity name signature effectful body =>
    exact ⟨.of_everything _ _, Body.suits_length.mp (body.suits_everything _ _)⟩

mutual

theorem Value.fits_everything (value : Value) : value.Fits .everything := by
  match value with
  | .nil => exact .nil
  | .boolean truth => exact .boolean truth
  | .number result => exact .number result
  | .string text => exact .string text
  | .list cells => exact .list cells
  | .dictionary ⟨size, none⟩ => exact .dictionary fun _ mem => by cases mem
  | .dictionary ⟨size, some trie⟩ => exact .dictionary trie.fit_everything
  | .function callee => exact .function callee.fits_everything
  | .effect identity payload => exact .effect identity payload
  | .error failure => exact .error trivial

theorem Trie.fit_everything (trie : Trie Value Thunk) :
    ∀ entry ∈ trie.toList, entry.1.Fits .everything := by
  match trie with
  | .tip stamp hash entries => exact entries_fit_everything entries
  | .bin stamp stem mask low high =>
    exact List.forall_mem_append.mpr ⟨low.fit_everything, high.fit_everything⟩

theorem entries_fit_everything (entries : List (Value × Thunk)) :
    ∀ entry ∈ entries, entry.1.Fits .everything := by
  match entries with
  | [] => exact fun _ mem => by cases mem
  | (key, value) :: rest =>
    exact List.forall_mem_cons.mpr ⟨key.fits_everything, entries_fit_everything rest⟩

end

theorem Suspension.suits_everything (computation : Suspension) : computation.Suits .everything := by
  cases computation with
  | invoke body names bound => exact body.suits_everything names _
  | build scope body | probe note scope body => exact body.fits_everything _
  | _ => trivial

theorem Duty.fits_everything (duty : Duty) : duty.Fits .everything := by
  cases duty with
  | feed elements failure channel => exact fun _ _ => trivial
  | _ => trivial

theorem Action.told_everything (action : Action) (reply : action.Reply) :
    action.Told .everything reply := by
  cases action with
  | global name =>
    cases reply with
    | none => exact .inl trivial
    | some callee => exact .inl callee.fits_everything
  | receive channel => cases reply <;> trivial
  | _ => trivial

namespace Routine

variable (routine : Routine)

theorem fits_everything : routine.Fits .everything := by
  cases routine with
  | compare left right => exact ⟨left.fits_everything, right.fits_everything⟩
  | assign | mergeAll => exact fun entry _ => entry.1.fits_everything
  | hash value | render value | contains list value | allEqual value | view value =>
    exact value.fits_everything
  | monotone order previous list => exact previous.fits_everything
  | _ => trivial

theorem told_everything (reply : routine.Reply) : routine.Told .everything reply := by
  cases routine with
  | assign dict list | mergeAll dict list =>
    cases reply with
    | ok made => exact fun entry _ => entry.1.fits_everything
    | error failure => trivial
  | view | viewList | walk => trivial
  | _ => cases reply <;> trivial

end Routine

end ByNeed
