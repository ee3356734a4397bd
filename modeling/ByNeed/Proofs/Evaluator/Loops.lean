import ByNeed.Proofs.Evaluator.Underway

/-!
# Loops are found

A cell of a recursive group of sums has a number if no loop can be reached from it, and is an error
if one can, whatever was forced before.  The induction is on how many thunks are left to claim: a
thunk that is asked for while it is evaluated leads back to itself.
-/

namespace ByNeed

open Attempt Store List
open Arithmetic (add)

variable {self group bound : Nat} {base store between after : Store} {thunk : Thunk}
  {definition : Definition} {value : Value}
variable {cells : List Nat}

/-! ## Asking for numbers -/

/-- The value that an attempt at a number comes to. -/
def Value.ofOutcome : Except Error Float → Value
  | .ok result => .number result
  | .error failure => .error failure

/-- Asking for a number fails with the error that there is instead. -/
theorem Attempt.exists_ends_forceNumber (evaluates : thunk.Evaluates self store value after)
    (tells : value.Tells loops) :
    ∃ outcome, Value.ofOutcome outcome = value ∧
      (forceNumber thunk).run.Ends self store (.ok outcome) after := by
  have forced : Attempt.Returns self (ExceptT.lift (force thunk)) store value.purely after :=
    returns_lift (.evaluate evaluates (.done _ after))
  cases value with
  | number number => exact ⟨.ok number, rfl, forced.bind (returns_pure number after)⟩
  | error failure => exact ⟨.error failure, rfl, forced.bind_fails (fails_throw failure after)⟩
  | _ => contradiction

theorem Attempt.ends_fold {operation : Arithmetic}
    (ends : (operation.foldStep total list).run.Ends self store outcome after) :
    (operation.fold total list).run.Ends self store outcome after :=
  Code.ends_iff_runs.mpr (.call_done (Code.ends_iff_runs.mp ends))

/-! ## Evaluating the thunks of a group -/

/-- A thunk has been evaluated with the answer it should have. -/
def Store.Finds (base : Store) (group thread : Nat) (store : Store) (thunk : Thunk)
    (definition : Definition) : Prop :=
  ∃ value after, thunk.Evaluates thread store value after ∧
    value.Tells (base.LoopsFrom group definition) ∧ base.Passes group thread store after

/-- As long as there are few enough thunks to claim, every thunk of the group finds the
answer it should have. -/
def Store.FindsBelow (base : Store) (group thread bound : Nat) : Prop :=
  ∀ store thunk definition, base.Underway group thread store →
    base.unclaimed group store < bound → base.Belongs group thunk definition →
      base.Toward group thread store thunk → base.Finds group thread store thunk definition

namespace Store

variable {list function : Thunk} {cell : Nat} {references : List Thunk}
variable {positionals : List Positional} {callee : Function}

theorem cell_runs (found : store.cell? group cell = some target) :
    (Suspension.cell group cell).resume.Runs self store (.ok target) store := by
  have performed : (Action.cell group cell).perform store = (some (some target), store) := by
    rw [Action.perform, found]
  exact .act performed (.done target store)

section

variable (finds : base.FindsBelow group self bound) (isSumGroup : base.IsSumGroup group)
  (underway : base.Underway group self store)

include finds isSumGroup underway

theorem FindsBelow.follow (suspended : store.slot? thunk = some (.suspended (.cell group cell)))
    (unmarked : base.slot? thunk ≠ some (.evaluating self))
    (refers : ∀ definition, base.Belongs group thunk definition → definition = .reference cell)
    (found : base.cell? group cell = some target)
    (few : base.unclaimed group (store.setSlot thunk (.evaluating self)) < bound)
    (toward : base.Toward group self (store.setSlot thunk (.evaluating self)) target) :
    base.Finds group self store thunk (.reference cell) := by
  have claimed := underway.claim suspended
  obtain ⟨further, belongs⟩ := isSumGroup cell target found
  obtain ⟨value, after, evaluates, tells, passes⟩ :=
    finds _ target further claimed few belongs toward
  have foundNow : (store.setSlot thunk (.evaluating self)).cell? group cell = some target := by
    rw [cell?, Store.group, claimed.groups_eq]
    exact found
  have same : base.LoopsFrom group further ↔ base.LoopsFrom group (.reference cell) := by
    rw [← loops_iff found belongs.defines, loopsFrom_reference]
  have tellsCell := (tells.congr same).through (Suspension.cell group cell).site
  refine ⟨_, _, .computed (slot_eq_of_slot? suspended) (cell_runs foundNow) evaluates, tellsCell,
    passes.publish suspended unmarked fun definition belongs => ?_⟩
  rw [refers definition belongs]
  exact tellsCell

theorem FindsBelow.reference (few : base.unclaimed group store < bound + 1)
    (belongs : base.Belongs group thunk (.reference cell))
    (toward : base.Toward group self store thunk)
    (held : base.slot? thunk = some (.suspended (.cell group cell)))
    (suspended : store.slot? thunk = some (.suspended (.cell group cell))) :
    base.Finds group self store thunk (.reference cell) := by
  obtain ⟨next, found⟩ :=
    Option.isSome_iff_exists.mp (belongs.defined cell (mem_singleton_self cell))
  have fewer := unclaimed_lt self belongs suspended
  exact finds.follow isSumGroup underway suspended belongs.defines.not_evaluating
    (fun _ belongsToo => belongsToo.defines.unique belongs.defines) found (by omega)
    (toward.claim (.follow held found))

end

/-- Operands are evaluated in order, up to one from which a loop can be reached. -/
theorem FindsBelow.fold (finds : base.FindsBelow group self bound)
    (refers : List.Forall₂ (fun reference cell =>
      base.slot? reference = some (.suspended (.cell group cell))) references cells)
    (defined : ∀ cell ∈ cells, (base.cell? group cell).isSome)
    (underway : base.Underway group self store)
    (few : base.unclaimed group store < bound)
    (toward : ∀ reference ∈ references, base.Toward group self store reference)
    (spine : store.Spine list references)
    (total : Float) :
    ∃ outcome after, (forceList list >>= add.fold total).run.Ends self store (.ok
      outcome) after ∧ (Value.ofOutcome outcome).Tells (∃ cell ∈ cells, base.Loops group cell) ∧
      base.Passes group self store after := by
  induction refers generalizing store list total with
  | nil =>
    refine ⟨.ok total, store, ?_, by simp [Value.ofOutcome, Value.Tells], .refl underway⟩
    exact (returns_forceList_of_evaluates (.of_slot? spine)).bind_ends
      (ends_fold (returns_pure total store))
  | @cons reference cell references cells refersFirst refers ih =>
    have belongs : base.Belongs group reference (.reference cell) :=
      ⟨.reference refersFirst, fun other mem =>
        defined other (mem_cons.mpr (.inl (mem_singleton.mp mem)))⟩
    obtain ⟨tail, held, tailSpine⟩ := spine
    have listed : (forceList list).Returns self store (.cons reference tail) store :=
      returns_forceList_of_evaluates (.of_slot? held)
    obtain ⟨value, between, evaluates, tells, passes⟩ :=
      finds store reference _ underway few belongs (toward reference mem_cons_self)
    obtain ⟨outcome, rfl, forced⟩ := exists_ends_forceNumber evaluates tells
    cases outcome with
    | error failure =>
      obtain ⟨found, sites, isLoop⟩ := tells
      have loops := loopsFrom_reference.mp found
      exact ⟨.error failure, between, listed.bind_ends (ends_fold (Attempt.Fails.bind forced
        _)), ⟨⟨cell, mem_cons_self, loops⟩, sites, isLoop⟩, passes⟩
    | ok number =>
      have fewNow := underway.unclaimed_le passes.keeps
      have spineNow := tailSpine.mono fun thunk value held =>
        passes.keeps thunk _ held (by simp)
      obtain ⟨outcome, after, ends, tellsRest, passesRest⟩ :=
        ih (fun other mem => defined other (mem_cons_of_mem _ mem)) passes.underway (by
          omega) (fun other mem => passes.toward (toward other (mem_cons_of_mem _ mem)))
          spineNow (total + number)
      refine ⟨outcome, after, listed.bind_ends (ends_fold ?_), ?_, passes.trans passesRest⟩
      · exact Attempt.Returns.bind_ends forced ends
      · refine tellsRest.congr ?_
        have free : ¬base.Loops group cell := fun loops => tells (loopsFrom_reference.mpr loops)
        simp [free]

theorem Chains.spine (chains : store.Chains (references.map .single) list pending) :
    store.Spine list references := by
  obtain ⟨last, lastHeld, builds⟩ := chains
  induction references generalizing list with
  | nil =>
    cases builds
    exact lastHeld
  | cons reference references ih =>
    cases builds with
    | cell held builds => exact ⟨_, held, ih builds⟩

theorem sum_bind_returns (runs : (restList positionals).Runs self store (.ok list) after) :
    (Signature.bind ⟨[], some operands, [], none⟩ ⟨positionals, []⟩).Returns self store [list]
      after := by
  refine Attempt.Returns.bind (returns_pure ([], positionals) store) ?_
  refine Attempt.Returns.bind ((returns_lift runs).map fun list => [list]) ?_
  refine Attempt.Returns.bind (returns_pure {} after) ?_
  refine Attempt.Returns.bind (returns_lift (.done ([list], {}) after)) ?_
  exact Attempt.Returns.bind (returns_pure [] after) (returns_pure [list] after)

/-- Calling a sum ends as folding over its operands does, once these are a list. -/
theorem sum_apply_ends (applied : store.slot? function = some (.evaluated (.function callee)))
    (isSum : callee.isSum = true)
    (lists : (restList positionals).Runs self store (.ok list) between)
    (ends : ((forceList list >>= add.fold add.start) >>= fun total =>
      ExceptT.lift (newValue (.number total))).run.Ends self between outcome after) :
    (apply function ⟨positionals, []⟩).run.Ends self store outcome after := by
  refine (returns_force (slot_eq_of_slot? applied)).bind_ends ?_
  rw [bind_assoc] at ends
  unfold Function.isSum at isSum
  split at isSum
  · exact (sum_bind_returns lists).bind_ends ends
  · contradiction

/-- Applying a sum folds over its operands, and makes a thunk of what comes out. -/
theorem sum_runs (site : Option Site)
    (applied : store.slot? function = some (.evaluated (.function callee)))
    (isSum : callee.isSum = true)
    (lists : (restList positionals).Runs self store (.ok list) between)
    (ends : (forceList list >>= add.fold add.start).run.Ends self between
      (.ok outcome) after) :
    let made := after.allocate (.evaluated (Value.ofOutcome outcome))
    (Suspension.apply function ⟨positionals, []⟩ site).resume.Runs self store (.ok made.1)
      made.2 := by
  cases outcome with
  | ok total =>
    apply returning_runs
    apply sum_apply_ends applied isSum lists
    exact Attempt.Returns.bind ends (returns_perform rfl)
  | error failure =>
    have fails := sum_apply_ends applied isSum lists (Attempt.Fails.bind ends _)
    exact (Code.ends_iff_runs.mp fails).bind rfl (.act rfl (.done _ _))

/-- A sum is a number if all its operands are. -/
theorem FindsBelow.sum (finds : base.FindsBelow group self bound)
    (underway : base.Underway group self store) (few : base.unclaimed group store < bound + 1)
    (belongs : base.Belongs group thunk (.sum cells)) (toward : base.Toward group self store thunk)
    (held : base.slot? thunk =
      some (.suspended (.apply function { positionals := references.map .single } site)))
    (applied : base.slot? function = some (.evaluated (.function callee)))
    (isSum : callee.isSum = true)
    (refers : List.Forall₂ (fun reference cell =>
      base.slot? reference = some (.suspended (.cell group cell))) references cells)
    (suspended : store.slot? thunk =
      some (.suspended (.apply function { positionals := references.map .single } site))) :
    base.Finds group self store thunk (.sum cells) := by
  have claimed := underway.claim suspended
  have fewer := unclaimed_lt self belongs suspended
  obtain ⟨list, pending, between, lists, adds, chains, -⟩ :=
    exists_restList self (store.setSlot thunk (.evaluating self)) (references.map .single)
  have listed := Passes.of_adds claimed adds
  have fewListed := claimed.unclaimed_le listed.keeps
  obtain ⟨outcome, after, ends, tells, passes⟩ :=
    finds.fold refers belongs.defined listed.underway (by omega) (fun reference mem =>
      listed.toward (toward.claim (.operand held mem))) chains.spine add.start
  have appliedNow := claimed.keeps function _ applied (by simp)
  have runs := sum_runs site appliedNow isSum lists ends
  have made : after.Adds (after.allocate (.evaluated (Value.ofOutcome outcome))).2 :=
    Adds.refl.make _ (by simp)
  have tellsSum : (Value.ofOutcome outcome).Tells (base.LoopsFrom group (.sum cells)) := tells
  have tellsThrough := tellsSum.through site
  have whole := (listed.trans passes).trans (.of_adds passes.underway made)
  refine ⟨_, _, .computed (slot_eq_of_slot? suspended) runs
      (.memoized (after.slot_allocate_self _)), tellsThrough,
    whole.publish suspended belongs.defines.not_evaluating fun definition belongsToo => ?_⟩
  rw [belongsToo.defines.unique belongs.defines]
  exact tellsThrough

/-- With one more thunk to claim, answers are found as well. -/
theorem FindsBelow.succ (finds : base.FindsBelow group self bound)
    (isSumGroup : base.IsSumGroup group) : base.FindsBelow group self (bound + 1) := by
  intro store thunk definition underway few belongs toward
  rcases underway.slot?_cases thunk definition belongs with unchanged | marked |
    ⟨value, held, tells⟩
  · obtain ⟨defines, -⟩ := id belongs
    cases defines with
    | number held =>
      have evaluated := slot_eq_of_slot? (unchanged.trans held)
      exact ⟨_, store, .memoized evaluated, loopsFrom_number _, .refl underway⟩
    | reference held =>
      exact finds.reference isSumGroup underway few belongs toward held (unchanged.trans held)
    | sum held applied isSum refers =>
      exact finds.sum underway few belongs toward held applied isSum refers (unchanged.trans held)
  · -- Everything that is being evaluated leads to the thunk, so it leads to itself.
    have leads := toward thunk definition belongs marked
    have found := loopsFrom_of_leads_self isSumGroup leads belongs.defines
    exact ⟨_, store, .cycle (slot_eq_of_slot? marked), ⟨found, [], rfl⟩, .refl underway⟩
  · exact ⟨value, store, .memoized (slot_eq_of_slot? held), tells, .refl underway⟩

theorem findsBelow (isSumGroup : base.IsSumGroup group) (self bound : Nat) :
    base.FindsBelow group self bound := by
  induction bound with
  | zero => exact fun _ _ _ _ few => absurd few (Nat.not_lt_zero _)
  | succ bound ih => exact ih.succ isSumGroup

end Store

/-! ## Forcing references one after the other -/

/-- A reference that is forced: one that is made for it, or one that there is. -/
inductive Demand where
  | fresh (cell : Nat)
  | again (reference : Thunk)

namespace Demand

/-- Force a reference to a cell of a group. -/
def answer (group : Nat) : Demand → Code Value
  | .fresh cell => do force (← suspend (.cell group cell))
  | .again reference => force reference

/-- A reference refers to a cell that is defined. -/
def AsksFor (store : Store) (group : Nat) (demand : Demand) (cell : Nat) : Prop :=
  (store.cell? group cell).isSome ∧ match demand with
    | .fresh named => named = cell
    | .again reference => store.slot? reference = some (.suspended (.cell group cell))

end Demand

theorem Demand.exists_answer {demand : Demand} (isSumGroup : base.IsSumGroup group)
    (asks : demand.AsksFor base group cell) (passes : base.Passes group self base store) :
    ∃ value after,
      (demand.answer group).Ends self store (.ok value) after ∧
      value.Tells (base.LoopsFrom group (.reference cell)) ∧
      base.Passes group self base after := by
  have finds := Store.findsBelow isSumGroup self
  have toward target := passes.toward (base.toward_refl group self target)
  obtain ⟨defined, refers⟩ := asks
  cases demand with
  | again reference =>
    have belongs : base.Belongs group reference (.reference cell) := by
      refine ⟨.reference refers, fun other mem => ?_⟩
      rwa [mem_singleton.mp mem]
    obtain ⟨value, after, evaluates, tells, passesOn⟩ :=
      finds _ store reference _ passes.underway (Nat.lt_succ_self _) belongs (toward reference)
    refine ⟨value, after, Code.ends_iff_runs.mpr (.evaluate evaluates ?_), tells,
      passes.trans passesOn⟩
    rw [tells.purely_eq]
    exact .done value after
  | fresh named =>
    obtain rfl : named = cell := refers
    obtain ⟨next, found⟩ := Option.isSome_iff_exists.mp defined
    let made := store.allocate (.suspended (.cell group named))
    have suspended : made.2.slot? made.1 = some (.suspended (.cell group named)) :=
      store.slot?_allocated _
    have adds : store.Adds made.2 := .make .refl _ (by simp)
    have passesMade := Store.Passes.of_adds passes.underway adds
    -- The new reference is none that the group had.
    have absent := store.not_holds_allocated (.suspended (.cell group named))
    have foreign : ∀ definition, ¬base.Belongs group made.1 definition :=
      fun _ belongs => absent (passes.underway.exists_slot? belongs)
    have unmarked : base.slot? made.1 ≠ some (.evaluating self) :=
      fun marked => absent ⟨_, passes.keeps made.1 _ marked (by simp)⟩
    have towardNext : base.Toward group self (made.2.setSlot made.1 (.evaluating self)) next := by
      intro thunk definition belongs marked
      have ne : thunk ≠ made.1 := by
        rintro rfl
        exact foreign definition belongs
      rw [slot?_setSlot_of_ne made.2 ne] at marked
      exact passesMade.toward (toward next) thunk definition belongs marked
    obtain ⟨value, after, evaluates, tells, passesOn⟩ :=
      (finds _).follow isSumGroup passesMade.underway suspended unmarked (fun definition belongs =>
        absurd belongs (foreign definition)) found (Nat.lt_succ_self _) towardNext
    refine ⟨value, after, Code.ends_iff_runs.mpr (.act rfl (.evaluate evaluates ?_)), tells,
      (passes.trans passesMade).trans passesOn⟩
    rw [tells.purely_eq]
    exact .done value after

theorem Demand.exists_answers {demands : List Demand} (isSumGroup : base.IsSumGroup group)
    (asks : List.Forall₂ (fun demand cell => demand.AsksFor base group cell) demands cells)
    (passes : base.Passes group self base store) :
    ∃ values after, (demands.mapM (Demand.answer group)).Ends self store (.ok values) after ∧
      List.Forall₂ (fun cell value => value.Tells (base.LoopsFrom group (.reference cell)))
        cells values := by
  induction asks generalizing store with
  | nil => exact ⟨[], store, Code.ends_iff_runs.mpr (.done [] store), .nil⟩
  | cons asksFirst _ ih =>
    obtain ⟨value, between, ends, tells, passesThen⟩ :=
      exists_answer isSumGroup asksFirst passes
    obtain ⟨values, after, endsRest, tellsRest⟩ := ih passesThen
    refine ⟨value :: values, after, ?_, .cons tells tellsRest⟩
    rw [Code.ends_iff_runs] at ends endsRest ⊢
    rw [mapM_cons]
    exact ends.bind rfl (endsRest.bind rfl (.done _ after))

/-- The references of a recursive group of sums can be forced in any order, as often as one
likes, and each time there is an answer.  It is a number if no loop can be reached from the
cell, and the error that the value depends on itself if one can. -/
theorem loops_are_found (self : Nat) {store : Store} {group : Nat}
    (isSumGroup : store.IsSumGroup group) {demands : List Demand} {cells : List Nat}
    (asks : List.Forall₂ (fun demand cell => demand.AsksFor store group cell) demands cells) :
    ∃ values after, (demands.mapM (Demand.answer group)).Ends self store (.ok values) after ∧
      List.Forall₂ (fun cell value =>
        (¬store.Loops group cell → ∃ number, value = .number number) ∧
        (store.Loops group cell → ∃ sites,
          value = .error { Fault.selfDependence.error with trace := sites })) cells values := by
  have start : store.Passes group self store store := .refl (store.underway_refl group self)
  obtain ⟨values, after, ends, tells⟩ := Demand.exists_answers isSumGroup asks start
  refine ⟨values, after, ends, tells.imp fun cell value told => ?_⟩
  rw [Store.loopsFrom_reference] at told
  cases value with
  | number number => exact ⟨fun _ => ⟨number, rfl⟩, fun loops => absurd loops told⟩
  | error failure =>
    obtain ⟨loops, sites, rfl⟩ := told
    exact ⟨fun free => absurd loops free, fun _ => ⟨sites, rfl⟩⟩
  | _ => contradiction

/-- Two cells that need each other, and two that need neither of them: a number, and twice
this number. -/
def pairAndDouble : Store where
  slots :=
    #[ .evaluated (.function
        (.plain 0 "add" { rest := some "numbers" } false (.lazyPrimitive (.total .add))))
     , .evaluated (.number 2)
     , .suspended (.cell 0 0)
     , .suspended (.apply ⟨0⟩ { positionals := [.single ⟨2⟩, .single ⟨2⟩] } (some .host))
     , .suspended (.cell 0 1)
     , .suspended (.cell 0 3)
     , .suspended (.apply ⟨0⟩ { positionals := [.single ⟨4⟩, .single ⟨5⟩] } (some .host))
     , .suspended (.cell 0 2) ]
  groups := #[#[some ⟨1⟩, some ⟨3⟩, some ⟨6⟩, some ⟨7⟩]]
  digest := Digest.multiplicative

namespace pairAndDouble

theorem defines_double : pairAndDouble.Defines 0 ⟨3⟩ (.sum [0, 0]) := by
  have held : pairAndDouble.slot? ⟨3⟩ = some (.suspended
      (.apply ⟨0⟩ { positionals := [⟨2⟩, ⟨2⟩].map .single } (some .host))) := rfl
  exact .sum held rfl rfl (.cons rfl (.cons rfl .nil))

theorem defines_first : pairAndDouble.Defines 0 ⟨6⟩ (.sum [1, 3]) := by
  have held : pairAndDouble.slot? ⟨6⟩ = some (.suspended
      (.apply ⟨0⟩ { positionals := [⟨4⟩, ⟨5⟩].map .single } (some .host))) := rfl
  exact .sum held rfl rfl (.cons rfl (.cons rfl .nil))

theorem isSumGroup : pairAndDouble.IsSumGroup 0 := by
  intro cell thunk found
  match cell with
  | 0 =>
    cases found
    exact ⟨.number 2, .number rfl, by decide⟩
  | 1 =>
    cases found
    exact ⟨_, defines_double, by decide⟩
  | 2 =>
    cases found
    exact ⟨_, defines_first, by decide⟩
  | 3 =>
    cases found
    exact ⟨.reference 2, .reference rfl, by decide⟩
  | cell + 4 => cases found

theorem first_loops : pairAndDouble.Loops 0 2 :=
  ⟨2, .refl, .tail (b := 3) (.single ⟨⟨6⟩, _, rfl, defines_first, by decide⟩)
    ⟨⟨7⟩, _, rfl, .reference rfl, by decide⟩⟩

theorem double_free : ¬pairAndDouble.Loops 0 1 := by
  have number_free : ¬pairAndDouble.Loops 0 0 := by
    have defines : pairAndDouble.Defines 0 ⟨1⟩ (.number 2) := .number rfl
    rw [loops_iff rfl defines]
    exact loopsFrom_number 2
  rw [loops_iff rfl defines_double]
  simp [Store.LoopsFrom, Definition.cells, number_free]

end pairAndDouble

theorem pairAndDouble_loops_are_found :
    pairAndDouble.IsSumGroup 0 ∧ ∃ sites number again after,
        ([.fresh 2, .fresh 1, .again ⟨7⟩].mapM (Demand.answer 0)).Ends 0 pairAndDouble
          (.ok [.error { Fault.selfDependence.error with trace := sites }, .number number,
            .error { Fault.selfDependence.error with trace := again }]) after := by
  refine ⟨pairAndDouble.isSumGroup, ?_⟩
  have asks : List.Forall₂ (fun (demand : Demand) cell => demand.AsksFor pairAndDouble 0 cell)
      [.fresh 2, .fresh 1, .again ⟨7⟩] [2, 1, 2] :=
    .cons ⟨rfl, rfl⟩ (.cons ⟨rfl, rfl⟩ (.cons ⟨rfl, rfl⟩ .nil))
  obtain ⟨values, after, ends, answers⟩ := loops_are_found 0 pairAndDouble.isSumGroup asks
  obtain _ | ⟨⟨-, first⟩, _ | ⟨⟨second, -⟩, _ | ⟨⟨-, third⟩, _ | _⟩⟩⟩ := answers
  obtain ⟨sites, rfl⟩ := first pairAndDouble.first_loops
  obtain ⟨number, rfl⟩ := second pairAndDouble.double_free
  obtain ⟨again, rfl⟩ := third pairAndDouble.first_loops
  exact ⟨sites, number, again, after, ends⟩

end ByNeed
