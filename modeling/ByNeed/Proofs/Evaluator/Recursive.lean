import ByNeed.Proofs.Machine.Effects

/-!
# The recursive evaluator

A second account of evaluation, without chains and without a stack, of terminating evaluations that
nobody interferes with.  The thunk that a computation gives is evaluated by recursion, and an error
records the call site on the way back.
-/

namespace ByNeed

@[simp] theorem Value.through_none (value : Value) : value.through none = value := by
  cases value <;> rfl

mutual

/-- Code runs to its end, with a result or by breaking off, and each thunk it asks for
is evaluated recursively. -/
inductive Code.Runs (self : Nat) : {α : Type} → Code α → Store → Except String α → Store → Prop
  | done {α : Type} (result : α) (store : Store) :
      Code.Runs self (.done result) store (.ok result) store
  | breakOff {α : Type} (message : String) (store : Store) :
      Code.Runs self (.breakOff message : Code α) store (.error message) store
  | act {α : Type} {action : Action} {next : action.Reply → Code α} {reply : action.Reply}
      {store between after : Store} {outcome : Except String α}
      (performed : action.perform store = (some reply, between))
      (rest : Code.Runs self (next reply) between outcome after) :
      Code.Runs self (.act action next) store outcome after
  | evaluate {α : Type} {thunk : Thunk} {next : Value → Code α} {value : Value}
      {store between after : Store} {outcome : Except String α}
      (evaluates : Thunk.Evaluates self thunk store value between)
      (rest : Code.Runs self (next value) between outcome after) :
      Code.Runs self (.evaluate thunk next) store outcome after
  | call {α : Type} {routine : Routine} {next : routine.Reply → Code α}
      {store after : Store} {outcome : Except String α}
      (rest : Code.Runs self (routine.body.bind next) store outcome after) :
      Code.Runs self (.call routine next) store outcome after

/-- A thunk has a value, which it memoises from then on. -/
inductive Thunk.Evaluates (self : Nat) : Thunk → Store → Value → Store → Prop
  /-- The value is known. -/
  | memoized {thunk : Thunk} {store : Store} {value : Value}
      (evaluated : store.slot thunk = .evaluated value) :
      Thunk.Evaluates self thunk store value store
  /-- The thunk depends on itself. -/
  | cycle {thunk : Thunk} {store : Store}
      (evaluating : store.slot thunk = .evaluating self) :
      Thunk.Evaluates self thunk store (.fault .selfDependence) store
  /-- The computation gives a thunk, and its value is the value of this thunk. -/
  | computed {thunk next : Thunk} {computation : Suspension} {value : Value}
      {store between after : Store}
      (suspended : store.slot thunk = .suspended computation)
      (runs : Code.Runs self computation.resume
        (store.setSlot thunk (.evaluating self)) (.ok next) between)
      (continues : Thunk.Evaluates self next between value after) :
      Thunk.Evaluates self thunk store (value.through computation.site)
        (after.publish thunk (value.through computation.site))
  /-- The computation breaks off, which is an error like any other. -/
  | brokenOff {thunk : Thunk} {computation : Suspension} {message : String}
      {store after : Store}
      (suspended : store.slot thunk = .suspended computation)
      (runs : Code.Runs self computation.resume
        (store.setSlot thunk (.evaluating self)) (.error message) after) :
      Thunk.Evaluates self thunk store ((Value.fault (.brokenOff message)).through computation.site)
        (after.publish thunk ((Value.fault (.brokenOff message)).through computation.site))

end

@[elab_as_elim]
theorem Thunk.Evaluates.followInduction {self : Nat}
    {motive : (thunk : Thunk) → (store : Store) → (value : Value) → (after : Store) →
      thunk.Evaluates self store value after → Prop}
    (memoized : ∀ {thunk store value} (evaluated : store.slot thunk = .evaluated value),
      motive thunk store value store (.memoized evaluated))
    (cycle : ∀ {thunk store} (evaluating : store.slot thunk = .evaluating self),
      motive thunk store (.fault .selfDependence) store (.cycle evaluating))
    (computed : ∀ {thunk next computation value store between after} (suspended : store.slot thunk =
      .suspended computation) (runs : computation.resume.Runs self
        (store.setSlot thunk (.evaluating self)) (.ok next) between)
      (continues : next.Evaluates self between value after),
      motive next between value after continues →
      motive thunk store _ _ (.computed suspended runs continues))
    (brokenOff : ∀ {thunk computation message store after} (suspended : store.slot thunk =
      .suspended computation) (runs : computation.resume.Runs self
        (store.setSlot thunk (.evaluating self)) (.error message) after),
      motive thunk store _ _ (.brokenOff suspended runs))
    {thunk : Thunk} {store : Store} {value : Value} {after : Store}
    (evaluates : thunk.Evaluates self store value after) :
    motive thunk store value after evaluates :=
  -- Nothing is asked of the runs of code on the way.
  @Thunk.Evaluates.rec self (fun _ _ _ _ _ => True) motive (fun _ _ => trivial) (fun _ _ => trivial)
    (fun _ _ _ => trivial) (fun _ _ _ _ => trivial) (fun _ _ => trivial) memoized cycle (fun
    suspended runs continues _ ih =>
      computed suspended runs continues ih)
    (fun suspended runs _ => brokenOff suspended runs)
    thunk store value after evaluates

@[elab_as_elim]
theorem Code.Runs.stepInduction {self : Nat}
    {motive : {α : Type} → (code : Code α) → (store : Store) → (outcome : Except String α) →
      (after : Store) → code.Runs self store outcome after → Prop}
    (done : ∀ {α : Type} (result : α) (store : Store),
      motive (.done result) store (.ok result) store (.done result store))
    (breakOff : ∀ {α : Type} (message : String) (store : Store),
      motive (.breakOff message : Code α) store (.error message) store (.breakOff message store))
    (act : ∀ {α : Type} {action : Action} {next : action.Reply → Code α} {reply : action.Reply}
      {store between after : Store} {outcome : Except String α}
      (performed : action.perform store = (some reply, between))
      (rest : (next reply).Runs self between outcome after),
      motive (next reply) between outcome after rest →
      motive (.act action next) store outcome after (.act performed rest))
    (evaluate : ∀ {α : Type} {thunk : Thunk} {next : Value → Code α} {value : Value}
      {store between after : Store} {outcome : Except String α}
      (evaluates : thunk.Evaluates self store value between)
      (rest : (next value).Runs self between outcome after),
      motive (next value) between outcome after rest →
      motive (.evaluate thunk next) store outcome after (.evaluate evaluates rest))
    (call : ∀ {α : Type} {routine : Routine} {next : routine.Reply → Code α} {store after : Store}
      {outcome : Except String α} (rest : (routine.body.bind next).Runs self store outcome after),
      motive (routine.body.bind next) store outcome after rest →
      motive (.call routine next) store outcome after (.call rest))
    {α : Type} {code : Code α} {store : Store} {outcome : Except String α} {after : Store}
    (runs : code.Runs self store outcome after) : motive code store outcome after runs :=
  @Code.Runs.rec self (fun code store outcome after runs => motive code store outcome after runs)
    (fun _ _ _ _ _ => True) done breakOff act (fun evaluates rest _ => evaluate evaluates rest) call
    (fun _ => trivial) (fun _ => trivial) (fun _ _ _ _ _ => trivial) (fun _ _ _ => trivial) α code
    store outcome after runs

/-! ## What an evaluation leaves alone -/

namespace Store

/-- A later store agrees with an earlier one on every thunk that was not suspended. -/
def Keeps (earlier later : Store) : Prop :=
  ∀ thunk slot, earlier.slot? thunk = some slot →
    (∀ computation, slot ≠ .suspended computation) → later.slot? thunk = some slot

theorem Keeps.refl (store : Store) : store.Keeps store :=
  fun _ _ held _ => held

theorem Keeps.trans {first second third : Store} (left : first.Keeps second)
    (right : second.Keeps third) : first.Keeps third :=
  fun thunk slot held settled => right thunk slot (left thunk slot held settled) settled

theorem Grows.toKeeps {earlier later : Store} (grows : earlier.Grows later) : earlier.Keeps later :=
  fun thunk slot held _ => grows.keeps thunk slot held

theorem Keeps.claimed {store later : Store}
    (keeps : (store.setSlot thunk (.evaluating self)).Keeps later)
    (suspended : store.slot thunk = .suspended computation) :
    later.slot? thunk = some (.evaluating self) :=
  keeps thunk _ (slot?_setSlot_self (slot?_of_suspended suspended) _) (by simp)

theorem Keeps.publish {store after : Store}
    (keeps : (store.setSlot thunk (.evaluating self)).Keeps after)
    (suspended : store.slot thunk = .suspended computation) (value : Value) :
    store.Keeps (after.publish thunk value) := by
  intro other slot held settled
  have ne : other ≠ thunk := by
    rintro rfl
    rw [slot?_of_suspended suspended] at held
    cases held
    exact settled computation rfl
  rw [Store.publish, slot?_setSlot_of_ne after ne]
  apply keeps other slot _ settled
  rwa [slot?_setSlot_of_ne store ne]

end Store

mutual

theorem Code.Runs.keeps {code : Code α} {outcome : Except String α} :
    code.Runs self store outcome after → store.Keeps after
  | .done _ store => .refl store
  | .breakOff _ store => .refl store
  | .act performed rest => (Action.grows_of_perform performed).toKeeps.trans rest.keeps
  | .evaluate evaluates rest => evaluates.keeps.trans rest.keeps
  | .call rest => rest.keeps

/-- Evaluating a thunk changes no thunk that was not suspended. -/
theorem Thunk.Evaluates.keeps {self : Nat} {thunk : Thunk} :
    thunk.Evaluates self store value after → store.Keeps after
  | .memoized _ => .refl store
  | .cycle _ => .refl store
  | .computed suspended runs continues =>
    (runs.keeps.trans continues.keeps).publish suspended _
  | .brokenOff suspended runs => runs.keeps.publish suspended _

end

mutual

theorem Code.Runs.nextIdentity_le {code : Code α} {outcome : Except String α} :
    code.Runs self store outcome after → store.nextIdentity ≤ after.nextIdentity
  | .done .. => Nat.le_refl _
  | .breakOff .. => Nat.le_refl _
  | .act performed rest => Nat.le_trans (Action.nextIdentity_le_of_perform performed)
      rest.nextIdentity_le
  | .evaluate evaluates rest => Nat.le_trans evaluates.nextIdentity_le rest.nextIdentity_le
  | .call rest => rest.nextIdentity_le

/-- Identities are never handed back. -/
theorem Thunk.Evaluates.nextIdentity_le {self : Nat} {thunk : Thunk} :
    thunk.Evaluates self store value after → store.nextIdentity ≤ after.nextIdentity
  | .memoized _ => Nat.le_refl _
  | .cycle _ => Nat.le_refl _
  | .computed _ runs continues => Nat.le_trans runs.nextIdentity_le continues.nextIdentity_le
  | .brokenOff _ runs => runs.nextIdentity_le

end

end ByNeed
