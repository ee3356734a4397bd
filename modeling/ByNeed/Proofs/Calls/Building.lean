import ByNeed.Proofs.Calls.Arity

/-!
# Building and binding do only what fits

An expression that knows its names is built without breaking off, and what it makes fits.  A
computed default is suspended in sight of the parameters before it, as it was written.
-/

namespace ByNeed

open Attempt

variable {regime : Regime}

/-! ## Scopes -/

namespace Scope

theorem mem_names_of_find?_eq_none {scope : Scope} (absent : scope.find? name = none) :
    name ∉ scope.names := by
  rintro mem
  obtain ⟨⟨bound, thunk⟩, inScope, rfl⟩ := List.mem_map.mp mem
  have differs := List.lookup_eq_none_iff.mp absent (bound, thunk) inScope
  simp at differs

theorem names_bindAll (scope : Scope) (names : List String) (bound : List Thunk) :
    (scope.bindAll names bound).names = (names.take bound.length).reverse ++ scope.names := by
  induction names generalizing scope bound with
  | nil => simp [bindAll, Scope.names]
  | cons name names ih =>
    cases bound with
    | nil => simp [bindAll, Scope.names]
    | cons thunk bound =>
      have later := ih ((name, thunk) :: scope) bound
      simpa [bindAll, Scope.names] using later

end Scope

/-! ## Building -/

theorem newFunction_obeys (name : String) (effectful : Bool) (signatureFits : signature.Fits regime)
    (bodyFits : body.Fits regime signature.names) :
    (newFunction name signature effectful body).Obeys regime (Function.Fits regime) :=
  ⟨⟨trivial, trivial⟩, fun _ _ => ⟨signatureFits, bodyFits⟩⟩

@[grind ←]
theorem newEffect_keeps (payload : Thunk) : (newEffect payload).Keeps regime := by
  unfold newEffect
  grind

theorem newReferences_keeps (group : Nat) (names : List String) (index : Nat) (scope : Scope) :
    (newReferences group names index scope).Keeps regime := by
  induction names generalizing index scope with
  | nil => exact Code.keeps_pure scope
  | cons name names ih =>
    have referred : (suspend (.cell group index)).Keeps regime := suspend_keeps trivial trivial
    exact referred.bind fun _ => ih _ _

theorem Mode.body_fits (mode : Mode) {body : Expr}
    (fits : body.Fits regime (names.reverse ++ scope.names)) :
    (mode.body scope body).Fits regime names := by
  cases mode <;> exact fits

theorem PreludeEntry.Fits.function {entry : PreludeEntry} (fits : entry.Fits regime)
    (standard : entry.IsStandard) (identity : Nat) :
    (Function.plain identity entry.name entry.signature false entry.body).Fits regime := by
  have noOptionals : entry.signature.optionals = [] := by
    rcases standard with listed | ⟨scheduler, rfl⟩
    · have all : ∀ entry ∈ Prelude.entries, entry.signature.optionals = [] := by
        decide
      exact all entry listed
    · rfl
  refine ⟨?_, ?_⟩
  · rw [Signature.Fits, noOptionals]
    trivial
  · unfold PreludeEntry.Fits at fits
    split at fits
    · rename_i operation body_eq
      rw [body_eq]
      simpa [Body.Fits, Signature.length_names] using fits
    · rename_i operation body_eq
      rw [body_eq]
      simpa [Body.Fits, Signature.length_names] using fits
    · exact fits.elim

/-- Looking a free name up gives a function that fits, or breaks off where this is granted. -/
theorem Allowance.Offers.keeps {free : String} (offers : regime.allowance.Offers free) :
    (do
      match ← Code.perform (.global free) with
      | some callee => newValue (.function callee)
      | none => .breakOff ("unbound name " ++ free) : Code Thunk).Keeps regime := by
  refine Code.obeys_perform_bind ⟨trivial, trivial⟩ fun found told => ?_
  cases found with
  | some callee =>
    rcases told.1 with fits | ⟨entry, standard, rfl, identity, rfl⟩
    · exact newValue_keeps (.function fits)
    · exact newValue_keeps (.function ((offers.fits entry standard rfl).function standard identity))
  | none =>
    rcases told.1 with breaks | told
    · exact breaks
    · rcases offers.found with ⟨entry, listed, named⟩ | breaks
      · exact absurd named (told entry listed)
      · exact breaks

mutual

theorem build_keeps (expr : Expr) {scope : Scope} (fits : expr.Fits regime scope.names) :
    (build expr scope).Keeps regime := by
  cases expr with
  | literal constant =>
    refine newValue_keeps ?_
    cases constant <;> constructor
  | name free =>
    unfold build
    split
    · exact Code.keeps_pure _
    · rename_i absent
      unfold Expr.Fits at fits
      exact (fits.resolve_left (Scope.mem_names_of_find?_eq_none absent)).keeps
  | list elements =>
    unfold Expr.Fits at fits
    exact (buildAll_keeps elements fits []).bind fun _ =>
      (LazyList.ofThunks_keeps _).bind fun _ => newValue_keeps (.list _)
  | prepend elements tail =>
    unfold Expr.Fits at fits
    exact (buildAll_keeps elements fits.1 []).bind fun _ =>
      (build_keeps tail fits.2).bind fun _ => LazyList.prepend_keeps _ _
  | dictionary entries =>
    unfold Expr.Fits at fits
    exact (buildEntries_keeps entries fits []).bind fun _ => suspend_keeps trivial trivial
  | error title message =>
    unfold Expr.Fits at fits
    exact newValue_keeps (.error fits)
  | effect payload =>
    unfold Expr.Fits at fits
    exact (build_keeps payload fits).bind newEffect_keeps
  | call callee positionals keywords site =>
    unfold Expr.Fits at fits
    exact (build_keeps callee fits.1).bind fun _ =>
      (buildPositionals_keeps positionals fits.2.1 []).bind fun _ =>
        (buildKeywords_keeps keywords fits.2.2 []).bind fun _ => suspend_keeps trivial trivial
  | function title required rest optionals restKeywords mode body =>
    unfold Expr.Fits at fits
    refine (buildOptionals_obeys optionals fits.1).bind fun made madeFit => ?_
    let signature : Signature := { required, rest, optionals := made, restKeywords }
    have signatureFits : signature.Fits regime := madeFit.1
    have bodyFits : (mode.body scope body).Fits regime signature.names := by
      refine mode.body_fits ?_
      simpa only [signature, Signature.names, madeFit.2] using fits.2
    exact (newFunction_obeys title _ signatureFits bodyFits).bind fun _ functionFits =>
      newValue_keeps (.function functionFits)
  | letIn bindings body =>
    unfold Expr.Fits at fits
    refine Code.Obeys.bind ((buildBindings_keeps bindings fits.1).and_always
      (buildBindings_always bindings scope)) fun inner known => ?_
    exact build_keeps body (known.2 ▸ fits.2)
  | letRec bindings body =>
    unfold Expr.Fits at fits
    refine Code.obeys_perform_bind ⟨trivial, trivial⟩ fun group _ => ?_
    refine Code.Obeys.bind ((newReferences_keeps group _ 0 scope).and_always
      (newReferences_always group _ 0 scope)) fun inner known => ?_
    exact (buildDefinitions_keeps bindings (known.2 ▸ fits.1) group 0).bind fun _ =>
      build_keeps body (known.2 ▸ fits.2)
  | forced body | outline body =>
    unfold Expr.Fits at fits
    exact (build_keeps body fits).bind fun _ => suspend_keeps trivial trivial
  | _ =>
    unfold Expr.Fits at fits
    exact suspend_keeps fits trivial

theorem buildAll_keeps (exprs : List Expr) (fit : ElementsFit regime exprs scope.names)
    (built : List Thunk) : (buildAll exprs scope built).Keeps regime := by
  cases exprs with
  | nil => exact Code.keeps_pure _
  | cons expr rest =>
    unfold ElementsFit at fit
    exact (build_keeps expr fit.1).bind fun _ => buildAll_keeps rest fit.2 _

theorem buildEntries_keeps (entries : List (Expr × Expr))
    (fit : EntriesFit regime entries scope.names) (built : List (Thunk × Thunk)) :
    (buildEntries entries scope built).Keeps regime := by
  match entries with
  | [] => exact Code.keeps_pure _
  | (key, value) :: rest =>
    unfold EntriesFit at fit
    exact (build_keeps key fit.1).bind fun _ =>
      (build_keeps value fit.2.1).bind fun _ => buildEntries_keeps rest fit.2.2 _

theorem buildPositionals_keeps (positionals : List (Passing × Expr))
    (fit : PositionalsFit regime positionals scope.names) (built : List Positional) :
    (buildPositionals positionals scope built).Keeps regime := by
  match positionals with
  | [] => exact Code.keeps_pure _
  | (passing, expr) :: rest =>
    unfold PositionalsFit at fit
    exact (build_keeps expr fit.1).bind fun _ => buildPositionals_keeps rest fit.2 _

theorem buildKeywords_keeps (keywords : List (String × Expr))
    (fit : KeywordsFit regime keywords scope.names) (built : List Keyword) :
    (buildKeywords keywords scope built).Keeps regime := by
  match keywords with
  | [] => exact Code.keeps_pure _
  | (keyword, expr) :: rest =>
    unfold KeywordsFit at fit
    exact (build_keeps expr fit.1).bind fun _ => buildKeywords_keeps rest fit.2 _

theorem buildOptionals_obeys (optionals : List (String × DefaultMode × Expr))
    (fit : OptionalExprsFit regime optionals scope.names before) :
    (buildOptionals optionals scope).Obeys regime fun made =>
      OptionalsFit regime before made ∧ made.map Optional.name = optionals.map Prod.fst := by
  match optionals with
  | [] => exact Code.obeys_pure ⟨trivial, rfl⟩
  | (parameter, .fixed, expr) :: rest =>
    unfold OptionalExprsFit at fit
    exact Code.Obeys.bind (build_keeps expr fit.1) fun _ _ =>
      (buildOptionals_obeys rest fit.2).bind fun _ madeFit =>
        Code.obeys_pure ⟨⟨trivial, madeFit.1⟩, congrArg (parameter :: ·) madeFit.2⟩
  | (parameter, .computed, expr) :: rest =>
    unfold OptionalExprsFit at fit
    exact (buildOptionals_obeys rest fit.2).bind fun _ madeFit =>
      Code.obeys_pure ⟨⟨fit.1, madeFit.1⟩, congrArg (parameter :: ·) madeFit.2⟩

theorem buildBindings_keeps (bindings : List (String × Expr))
    (fit : BindingsFit regime bindings scope.names) :
    (buildBindings bindings scope).Keeps regime := by
  match bindings with
  | [] => exact Code.keeps_pure _
  | (bound, expr) :: rest =>
    unfold BindingsFit at fit
    exact (build_keeps expr fit.1).bind fun _ => buildBindings_keeps rest fit.2

theorem buildDefinitions_keeps (bindings : List (String × Expr))
    (fit : KeywordsFit regime bindings scope.names) (group index : Nat) :
    (buildDefinitions bindings group index scope).Keeps regime := by
  match bindings with
  | [] => exact Code.keeps_pure _
  | (_, expr) :: rest =>
    unfold KeywordsFit at fit
    exact (build_keeps expr fit.1).bind fun _ =>
      Code.obeys_perform_bind ⟨trivial, trivial⟩ fun _ _ =>
        buildDefinitions_keeps rest fit.2 group _

end

/-! ## Binding -/

@[grind ←]
theorem pull_keeps (positionals : List Positional) : (pull positionals).Keeps regime := by
  fun_induction pull positionals <;> grind [Fault.kind]

theorem bindRequired_keeps (parameters : List String) (positionals : List Positional) :
    (bindRequired parameters positionals).Keeps regime := by
  induction parameters generalizing positionals with
  | nil => exact keeps_pure _
  | cons parameter parameters ih =>
    unfold bindRequired
    grind [Fault.kind]

theorem passEach_keeps (positionals : List Positional) (list : Thunk) :
    (passEach positionals list).Keeps regime := by
  fun_induction passEach positionals list <;> grind

@[grind ←]
theorem restList_keeps (positionals : List Positional) : (restList positionals).Keeps regime :=
  (newValue_keeps (.list _)).bind fun _ => passEach_keeps _ _

theorem bindRest_keeps (rest : Option String) (positionals : List Positional) :
    (bindRest rest positionals).Keeps regime := by
  unfold bindRest
  grind [Fault.kind]

@[grind ←]
theorem spreadKeywords_keeps (entries : List (Value × Thunk)) (keywords : Keywords) :
    (spreadKeywords entries keywords).Keeps regime := by
  fun_induction spreadKeywords entries keywords with
  | case1 keywords => exact keeps_pure keywords
  | case2 name value rest keywords ih => exact ih
  | case3 => exact keeps_fault (by simp [Fault.kind])

theorem collectKeywords_keeps (given : List Keyword) (keywords : Keywords) :
    (collectKeywords given keywords).Keeps regime := by
  fun_induction collectKeywords given keywords with
  | case1 keywords => exact keeps_pure keywords
  | case2 name value rest keywords ih => exact ih
  | case3 dict rest keywords ih =>
    exact (forceDictionary_obeys dict).keeps.bind fun entries =>
      (spreadKeywords_keeps _ keywords).bind ih

/-- A default that fits behind the parameters before it is suspended in sight of them. -/
theorem Default.Fits.thunk {default : Default} (fits : default.Fits regime before)
    (length_eq : bound.length = before.length) :
    (default.thunk (before ++ after) bound).Keeps regime := by
  cases default with
  | fixed value => exact Code.keeps_pure value
  | computed scope body =>
    refine suspend_keeps ?_ trivial
    rw [Suspension.Fits, Scope.names_bindAll, length_eq, List.take_left]
    exact fits

theorem bindOptionals_keeps {optionals : List Optional} (fit : OptionalsFit regime before optionals)
    (length_eq : bound.length = before.length) (keywords : Keywords) :
    (bindOptionals (before ++ optionals.map Optional.name ++ after) optionals bound
      keywords).Keeps regime := by
  induction optionals generalizing before bound keywords with
  | nil => exact Code.keeps_pure _
  | cons optional rest ih =>
    have further : ∀ (value : Thunk) (keywords : Keywords),
        (bindOptionals (before ++ (optional :: rest).map Optional.name ++ after) rest
          (bound ++ [value]) keywords).Keeps regime := by
      intro value keywords
      have next : (bindOptionals (before ++ [optional.name] ++ rest.map Optional.name ++ after)
          rest (bound ++ [value]) keywords).Keeps regime :=
        ih fit.2 (by simp [length_eq]) keywords
      simpa using next
    have default : (optional.default.thunk
        (before ++ ((optional :: rest).map Optional.name ++ after)) bound).Keeps regime :=
      fit.1.thunk length_eq
    rw [← List.append_assoc] at default
    rw [bindOptionals]
    split
    · exact further _ _
    · exact default.bind fun value => further value keywords

theorem bindRestKeywords_keeps (rest : Option String) (keywords : Keywords) :
    (bindRestKeywords rest keywords).Keeps regime := by
  cases rest with
  | some name =>
    refine Attempt.Obeys.bind (Dictionary.ofEntries_obeys ?_) fun dict fits => ?_
    · intro entry mem
      obtain ⟨⟨keyword, value⟩, -, rfl⟩ := List.mem_map.mp mem
      exact .string keyword
    · exact obeys_lift_bind (newValue_keeps (.dictionary fits)) fun _ _ =>
        keeps_pure _
  | none =>
    simp only [bindRestKeywords]
    split
    · exact keeps_pure _
    · exact keeps_fault (by simp [Fault.kind])

/-- Binding the arguments of a call does only what fits, and gives as many parameters as the
signature has. -/
theorem Signature.Fits.bind {signature : Signature} (fits : signature.Fits regime)
    (arguments : Arguments) :
    (signature.bind arguments).Obeys regime fun bound =>
      True ∧ bound.length = signature.arity := by
  refine Attempt.Obeys.and_always ?_ (signature.bind_always arguments)
  refine Attempt.Obeys.bind (Attempt.Obeys.and_always (bindRequired_keeps _ _)
    (bindRequired_always _ _)) fun required required_eq => ?_
  refine Attempt.Obeys.bind (Attempt.Obeys.and_always (bindRest_keeps _ _)
    (bindRest_always _ _)) fun rest rest_eq => ?_
  refine Attempt.Obeys.bind (collectKeywords_keeps _ _) fun keywords _ => ?_
  have length_eq : (required.1 ++ rest).length =
      (signature.required ++ signature.rest.toList).length := by
    simp [required_eq.2, rest_eq.2]
  refine obeys_lift_bind (bindOptionals_keeps fits length_eq keywords) fun filled _ => ?_
  exact (bindRestKeywords_keeps _ _).bind fun _ => keeps_pure _

end ByNeed
