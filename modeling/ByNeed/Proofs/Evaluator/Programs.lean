import ByNeed.Program
import ByNeed.Proofs.Evaluator.Returns
import ByNeed.Proofs.Machine.Questions
import ByNeed.Proofs.Safety.Service

/-!
# Running a program

A program runs its statements in order and stops at the first that fails.  What it found is
memoised, so it comes to the same end again and evaluates nothing.  `Code.Recites` is the account of
such a second run, in which code is answered at once whenever it asks for a thunk.
-/

namespace ByNeed

open Store Code

variable {α β : Type} {self : Nat}

/-! ## Code that is answered at once -/

/-- Code comes to a result by asking for thunks whose answers are known, and does nothing
else. -/
inductive Code.Recites (known : Thunk → Value → Prop) : Code α → α → Prop
  | done (result : α) : Recites known (.done result) result
  | evaluate {thunk : Thunk} {value : Value} {next : Value → Code α} {result : α}
      (isKnown : known thunk value)
      (rest : Recites known (next value) result) :
      Recites known (.evaluate thunk next) result

/-- A thread that asks for a thunk is told its value, or that the thread itself is in the
middle of evaluating it. -/
def Store.Knows (store : Store) (self : Nat) : Thunk → Value → Prop :=
  store.Tells fun thunk value =>
    store.slot? thunk = some (.evaluating self) ∧ value = .fault .selfDependence

namespace Code.Recites

variable {known : Thunk → Value → Prop} {code : Code α} {result : α} {store : Store}

theorem mono (recites : code.Recites known result)
    (more : ∀ thunk value, known thunk value → others thunk value) :
    code.Recites others result := by
  induction recites with
  | done result => exact .done result
  | evaluate isKnown _ ih => exact .evaluate (more _ _ isKnown) ih

theorem bind (first : code.Recites known result) (second : (following result).Recites known final) :
    (code.bind following).Recites known final := by
  induction first with
  | done result => exact second
  | evaluate isKnown _ ih => exact .evaluate isKnown (ih second)

theorem runs (recites : code.Recites (store.Knows self) result) :
    code.Runs self store (.ok result) store := by
  induction recites with
  | done result => exact .done result store
  | evaluate isKnown _ ih =>
    rcases isKnown with evaluated | ⟨evaluating, rfl⟩
    · exact .evaluate (.memoized (slot_eq_of_slot? evaluated)) ih
    · exact .evaluate (.cycle (slot_eq_of_slot? evaluating)) ih

/-- On its way such code claims nothing: it goes on with its own code from step to step, on
the same store. -/
theorem running_of_reaches (recites : code.Recites (store.Knows self) result)
    (reaches : Thread.Reaches self (.running code, store) config) :
    config.2 = store ∧
      ∃ rest, config.1 = .running rest ∧ rest.Recites (store.Knows self) result := by
  induction reaches with
  | refl => exact ⟨rfl, code, rfl, recites⟩
  | @tail between config _ moves ih =>
    obtain ⟨thread, left⟩ := between
    obtain ⟨rfl, rest, rfl, restRecites⟩ := ih
    cases restRecites with
    | done result => cases moves
    | @evaluate thunk value next _ isKnown rest =>
      have answered : (Thread.running (.evaluate thunk next)).step self left =
          (.moved (.running (next value)), left) := by
        rcases isKnown with evaluated | ⟨evaluating, rfl⟩
        · simp [Thread.step, Stack.evaluate, Store.claim,
            slot_eq_of_slot? evaluated, Stack.resume]
        · simp [Thread.step, Stack.evaluate, Store.claim,
            slot_eq_of_slot? evaluating, Stack.resume]
      obtain ⟨next, after⟩ := config
      rw [Thread.Moves, answered] at moves
      cases moves
      exact ⟨rfl, _, rfl, rest⟩

end Code.Recites

/-! ## Running an effect -/

/-- Running the effect of a thunk gives a value; it does not break off. -/
theorem exists_of_ends_forceImpure (ends : (forceImpure thunk).Ends self store outcome after) :
    ∃ value, outcome = .ok value := by
  rcases ends_iff_runs.mp ends with _ | _ | _ | ⟨-, rest⟩ | _
  dsimp only at rest
  split at rest
  · rcases rest with _ | _ | _ | ⟨-, ⟨⟩⟩ | _
    exact ⟨_, rfl⟩
  · cases rest
    exact ⟨_, rfl⟩
  · cases rest
    exact ⟨_, rfl⟩

/-- Once the effect of a thunk was run, running it recites its value.  This is where the
payload matters: it is memoised like the thunk itself. -/
theorem forceImpure_safe_recites {frame : Frame} {thunk : Thunk} (runs_eq : frame.runs = some thunk)
    {stage : Stage frame} (sees : stage.store.Sees thunk) :
    (forceImpure thunk).Safe
      (fun later value => (forceImpure thunk).Recites (later.store.Tells frame.Excuses) value)
      stage := by
  refine ⟨.inl sees, fun between _ value answers => ?_⟩
  cases value with
  | effect identity payload =>
    -- An effect is not the fault of a thunk that depends on itself.
    have evaluated := answers.2.resolve_right fun cycle => by cases cycle.2
    refine ⟨.inr ⟨thunk, identity, runs_eq, evaluated⟩, fun later le value answersToo => ?_⟩
    exact .evaluate (.inl (Realm.slot?_of_le le evaluated)) (.evaluate answersToo.2 (.done _))
  | _ => exact .evaluate answers.2 (.done _)

/-- A sound realm serves the thread whichever effect it may run. -/
def Stage.reframe {held : Thunk → Prop} {runs : Option Thunk} (stage : Stage ⟨self, held, runs⟩)
    (others : Option Thunk) : Stage ⟨self, held, others⟩ :=
  { toRealm := stage.toRealm, sound := stage.sound, fits := stage.fits }

/-- Running the effect of a thunk that can be seen keeps the realm sound, and from then on the
thread recites the value. -/
theorem exists_recites_of_ends_forceImpure {held : Thunk → Prop} {stage : Stage ⟨self, held, none⟩}
    (exact : stage.Exact) {thunk : Thunk} (sees : stage.store.Sees thunk) {value : Value}
    {after : Store} (ends : (forceImpure thunk).Ends self stage.store (.ok value) after) :
    ∃ later : Stage ⟨self, held, none⟩, stage ≤ later ∧ later.store = after ∧ later.Exact ∧
      (forceImpure thunk).Recites (later.store.Tells (Frame.Excuses ⟨self, held, none⟩)) value := by
  obtain ⟨later, le, same, exactThen, recites⟩ :=
    (@forceImpure_safe_recites ⟨self, held, some thunk⟩ thunk rfl (stage.reframe (some thunk))
      sees).of_ends (fun _ _ _ le recites => recites.mono fun _ _ tells =>
        tells.mono fun _ _ => Realm.slot?_of_le le) exact ends
  exact ⟨later.reframe none, le, same, exactThen, recites value rfl⟩

/-- What the thread was told it is told again on every store that keeps what was known. -/
theorem Store.Tells.knows {frame : Frame} {stage : Stage frame} {thunk : Thunk} {value : Value}
    (tells : stage.store.Tells frame.Excuses thunk value) (keeps : stage.store.Keeps later) :
    later.Knows frame.self thunk value := by
  rcases tells with evaluated | ⟨isHeld, rfl⟩
  · exact .inl (keeps thunk _ evaluated (by simp))
  · exact .inr ⟨keeps thunk _ (stage.fits thunk isHeld) (by simp), rfl⟩

/-! ## Statement after statement -/

namespace Program

/-- Statements are run in order, each on the store that the one before it left, and none of
them fails. -/
inductive Succeeds (self : Nat) : List Thunk → Store → List Value → Store → Prop
  | nil (store : Store) : Succeeds self [] store [] store
  | cons {statement : Thunk} {rest : List Thunk} {value : Value} {values : List Value}
      {store between after : Store}
      (ends : (forceImpure statement).Ends self store (.ok value) between)
      (isNoError : ∀ error, value ≠ .error error)
      (others : Succeeds self rest between values after) :
      Succeeds self (statement :: rest) store (value :: values) after

/-- The statements before a position succeed, and the one at the position fails. -/
def FailsAt (self : Nat) (statements : List Thunk) (store : Store) (failure : StatementFailure)
    (after : Store) : Prop :=
  ∃ before statement rest values between,
    statements = before ++ statement :: rest ∧ before.length = failure.index ∧
      Succeeds self before store values between ∧
      (forceImpure statement).Ends self between (.ok (.error failure.error)) after

variable {index : Nat} {values : List Value} {statement : Thunk} {statements rest : List Thunk}
  {store after : Store}

/-- What a run goes on with once a statement has given a value. -/
def goOn (index : Nat) (values : List Value) (rest : List Thunk) :
    Value → Code (Except StatementFailure (List Value))
  | .error error => .done (.error { index, error })
  | value => (runFrom (index + 1) (value :: values) rest).run

theorem goOn_of_ne_error (isNoError : ∀ error, value ≠ .error error) :
    goOn index values rest value = (runFrom (index + 1) (value :: values) rest).run := by
  unfold goOn
  split
  · exact absurd rfl (isNoError _)
  · rfl

theorem runFrom_cons :
    (runFrom index values (statement :: rest)).run =
      (forceImpure statement).bind (goOn index values rest) := by
  change ((forceImpure statement).bind fun value => .done (Except.ok value)).bind _ = _
  rw [bind_assoc]
  congr 1

variable {outcome : Except String (Except StatementFailure (List Value))}

/-- A run goes on from the store that the first statement left. -/
theorem ends_runFrom_cons_iff :
    (runFrom index values (statement :: rest)).run.Ends self store outcome after ↔
      ∃ value between, (forceImpure statement).Ends self store (.ok value) between ∧
        (goOn index values rest value).Ends self between outcome after := by
  simp only [ends_iff_runs, runFrom_cons]
  constructor
  · intro runs
    rcases Code.Runs.of_bind runs with found | ⟨message, first, -⟩
    · exact found
    · obtain ⟨value, ⟨⟩⟩ := exists_of_ends_forceImpure (ends_iff_runs.mpr first)
  · rintro ⟨value, between, first, second⟩
    exact first.bind rfl second

theorem Succeeds.ends_append (succeeds : Succeeds self statements store found between)
    (ends : (runFrom (index + statements.length) (found.reverse ++ values) rest).run.Ends self
      between outcome after) :
    (runFrom index values (statements ++ rest)).run.Ends self store outcome after := by
  induction succeeds generalizing index values with
  | nil store => exact ends
  | @cons _ _ value found _ _ _ first isNoError _ ih =>
    refine ends_runFrom_cons_iff.mpr ⟨value, _, first, ?_⟩
    rw [goOn_of_ne_error isNoError]
    apply ih
    simpa [Nat.add_assoc, Nat.add_comm 1] using ends

theorem Succeeds.ends (succeeds : Succeeds self statements store found after) :
    (runFrom index values statements).run.Ends self store (.ok (.ok (values.reverse ++ found)))
      after := by
  rw [← List.append_nil statements]
  refine succeeds.ends_append (ends_iff_runs.mpr ?_)
  rw [show values.reverse ++ found = (found.reverse ++ values).reverse by simp]
  exact .done _ after

theorem FailsAt.ends {failure : StatementFailure}
    (fails : FailsAt self statements store failure after) :
    (runFrom index values statements).run.Ends self store
      (.ok (.error { failure with index := index + failure.index })) after := by
  obtain ⟨before, statement, rest, found, between, rfl, length_eq, succeeds, ends⟩ := fails
  rw [← length_eq]
  exact succeeds.ends_append
    (ends_runFrom_cons_iff.mpr ⟨_, after, ends, ends_iff_runs.mpr (.done _ after)⟩)

/-- A run ends in these two ways only. -/
theorem succeeds_or_failsAt
    (ends : (runFrom index values statements).run.Ends self store outcome after) :
    (∃ found, outcome = .ok (.ok (values.reverse ++ found)) ∧
      Succeeds self statements store found after) ∨
    ∃ failure, outcome = .ok (.error { failure with index := index + failure.index }) ∧
      FailsAt self statements store failure after := by
  induction statements generalizing index values store with
  | nil =>
    cases ends_iff_runs.mp ends
    exact .inl ⟨[], by simp, .nil _⟩
  | cons statement rest ih =>
    obtain ⟨value, between, first, second⟩ := ends_runFrom_cons_iff.mp ends
    by_cases isError : ∃ error, value = .error error
    · obtain ⟨error, rfl⟩ := isError
      cases ends_iff_runs.mp second
      exact .inr ⟨⟨0, error⟩, rfl, [], statement, rest, [], store, rfl, rfl, .nil store, first⟩
    · have isNoError : ∀ error, value ≠ .error error := fun error same => isError ⟨error, same⟩
      rw [goOn_of_ne_error isNoError] at second
      rcases ih second with ⟨found, rfl, succeeds⟩ |
        ⟨⟨position, error⟩, rfl, before, failing, others, found, left, rfl, rfl, succeeds, fails⟩
      · exact .inl ⟨value :: found, by simp, .cons first isNoError succeeds⟩
      · exact .inr ⟨⟨before.length + 1, error⟩, by simp [Nat.add_assoc, Nat.add_comm 1],
          statement :: before, failing, others, value :: found, left, rfl, rfl,
          .cons first isNoError succeeds, fails⟩

/-! ## What a run asks for -/

theorem exists_asked_of_yields_error {asked : Asked} {failure : StatementFailure}
    (yields : (runFrom index values statements).run.Yields asked (.error failure)) :
    ∃ position parts, failure.index = index + position ∧ position < statements.length ∧
      asked = parts.flatten ∧
      List.Forall₂ (fun statement part => ∃ value, (forceImpure statement).Yields part value)
        (statements.take (position + 1)) parts := by
  induction statements generalizing index values asked with
  | nil => cases yields
  | cons statement rest ih =>
    rw [runFrom_cons] at yields
    obtain ⟨first, others, value, rfl, found, remaining⟩ := Code.Yields.of_bind yields
    by_cases isError : ∃ error, value = .error error
    · obtain ⟨error, rfl⟩ := isError
      cases remaining
      exact ⟨0, [first], rfl, by simp, by simp, .cons ⟨_, found⟩ .nil⟩
    · rw [goOn_of_ne_error fun error same => isError ⟨error, same⟩] at remaining
      obtain ⟨position, parts, index_eq, lt, rfl, alike⟩ := ih remaining
      exact ⟨position + 1, first :: parts, by omega, by simpa using lt, by simp,
        .cons ⟨value, found⟩ alike⟩

/-! ## A second run -/

/-- A run keeps the realm sound, and from then on the thread recites its outcome. -/
theorem exists_recites_of_ends {held : Thunk → Prop} {stage : Stage ⟨self, held, none⟩}
    (exact : stage.Exact) (sees : ∀ statement ∈ statements, stage.store.Sees statement)
    (ends : (runFrom index values statements).run.Ends self stage.store (.ok result) after) :
    ∃ later : Stage ⟨self, held, none⟩, stage ≤ later ∧ later.store = after ∧ later.Exact ∧
      (runFrom index values statements).run.Recites
        (later.store.Tells (Frame.Excuses ⟨self, held, none⟩)) result := by
  induction statements generalizing index values stage with
  | nil =>
    cases ends_iff_runs.mp ends
    exact ⟨stage, le_rfl, rfl, exact, .done _⟩
  | cons statement rest ih =>
    obtain ⟨value, between, first, second⟩ := ends_runFrom_cons_iff.mp ends
    obtain ⟨seesFirst, seesRest⟩ := List.forall_mem_cons.mp sees
    obtain ⟨next, le, rfl, exactThen, recites⟩ :=
      exists_recites_of_ends_forceImpure exact seesFirst first
    rw [runFrom_cons]
    by_cases isError : ∃ error, value = .error error
    · obtain ⟨error, rfl⟩ := isError
      cases ends_iff_runs.mp second
      exact ⟨next, le, rfl, exactThen, recites.bind (.done _)⟩
    · have goes := @goOn_of_ne_error index values rest value fun error same =>
        isError ⟨error, same⟩
      rw [goes] at second
      obtain ⟨later, leLater, rfl, exactNow, others⟩ := ih exactThen
        (fun statement mem => (seesRest statement mem).mono le) second
      refine ⟨later, le.trans leLater, rfl, exactNow, ?_⟩
      refine (recites.mono fun _ _ tells => tells.mono fun _ _ => Realm.slot?_of_le leLater).bind ?_
      rw [goes]
      exact others

end Program

/-- Run on a store in service, a program ends in two ways only.  It ends with values exactly
when running its statements in order, each on the store that the one before it left, gives
these values and no error.  It ends with a failure exactly when the statement at the position
of the failure is the first to give an error, and this is the error of the failure; it has
then asked for what the statements up to this one ask for and for no more.

On the store that it leaves, or on one that has come of it since, the program ends in the same
way again.  It then leaves the store as it is, and never comes to run a computation. -/
theorem programs_stop_at_the_first_failure_and_repeat (digest : List Piece → UInt64)
    (moves : List Move) (self : Nat) (program : Program)
    (sees : ∀ statement ∈ program.statements,
      ((Service.initial digest).run moves).store.Sees statement) :
    let store := ((Service.initial digest).run moves).store
    (∀ values after, program.run.run.Ends self store (.ok (.ok values)) after ↔
      Program.Succeeds self program.statements store values after) ∧
    (∀ failure after, program.run.run.Ends self store (.ok (.error failure)) after ↔
      Program.FailsAt self program.statements store failure after) ∧
    (∀ message after, ¬program.run.run.Ends self store (.error message) after) ∧
    (∀ asked failure,
      program.run.run.Yields asked (.error failure) →
      ∃ parts,
        asked = parts.flatten ∧
        List.Forall₂ (fun statement part => ∃ value, (forceImpure statement).Yields part value)
          (program.statements.take (failure.index + 1)) parts) ∧
    ∀ outcome after later,
      program.run.run.Ends self store (.ok outcome) after →
      after.Keeps later →
      program.run.run.Ends self later (.ok outcome) later ∧
      ∀ config,
        Thread.Reaches self (.running program.run.run, later) config →
        config.2 = later ∧ ∃ code, config.1 = .running code := by
  intro store
  refine ⟨fun values after => ⟨fun ends => ?_, fun succeeds => ?_⟩,
    fun failure after => ⟨fun ends => ?_, fun fails => ?_⟩, fun message after ends => ?_,
    fun asked failure yields => ?_, fun outcome after later ends keeps => ?_⟩
  · rcases Program.succeeds_or_failsAt ends with ⟨found, ⟨⟩, succeeds⟩ | ⟨failure, ⟨⟩, -⟩
    exact succeeds
  · exact succeeds.ends
  · rcases Program.succeeds_or_failsAt ends with ⟨found, ⟨⟩, -⟩ | ⟨failure, ⟨⟩, fails⟩
    simpa using fails
  · have ends := @Program.FailsAt.ends self 0 [] _ _ _ _ fails
    rwa [Nat.zero_add] at ends
  · rcases Program.succeeds_or_failsAt ends with ⟨found, ⟨⟩, -⟩ | ⟨failure, ⟨⟩, -⟩
  · obtain ⟨position, parts, index_eq, -, same, alike⟩ :=
      Program.exists_asked_of_yields_error yields
    rw [Nat.zero_add] at index_eq
    exact ⟨parts, same, index_eq ▸ alike⟩
  · obtain ⟨held, stage, same, exact⟩ := Service.exists_stage digest moves self
    rw [← same] at sees
    obtain ⟨last, -, rfl, -, recites⟩ :=
      Program.exists_recites_of_ends exact sees (by rwa [same])
    have known := recites.mono fun thunk value tells => tells.knows keeps
    exact ⟨Code.ends_iff_runs.mpr known.runs, fun config reaches =>
      have ⟨kept, code, running, _⟩ := known.running_of_reaches reaches
      ⟨kept, code, running⟩⟩

/-- A call of an effectful function is built. -/
def actMoves : List Move :=
  .start 0 (.build
      (.call (.function "act" [] none [] none .effectful (.literal .nil)) [] [] none) []) ::
    List.replicate 4 (.step 0)

/-- The call is a statement twice, and then comes the function, which is no effect. -/
def actTwice : Program where
  statements := [⟨1⟩, ⟨1⟩, ⟨0⟩]

/-- Where a run that is over has failed. -/
def Program.failedAt? : Thread (Except StatementFailure (List Value)) → Option Nat
  | .running (.done (.error failure)) => some failure.index
  | _ => none

theorem Program.eq_of_failedAt? (failed : failedAt? thread = some index) :
    ∃ error, thread = .running (.done (.error ⟨index, error⟩)) := by
  unfold failedAt? at failed
  split at failed
  · cases failed
    exact ⟨_, rfl⟩
  · cases failed

theorem actTwice_fails_and_repeats :
    (∀ statement ∈ actTwice.statements,
      ((Service.initial Digest.multiplicative).run actMoves).store.Sees statement) ∧
    ∃ error after, Program.FailsAt 0 actTwice.statements
        ((Service.initial Digest.multiplicative).run actMoves).store ⟨2, error⟩ after ∧
      actTwice.run.run.Ends 0 after (.ok (.error ⟨2, error⟩)) after := by
  have sees : ∀ statement ∈ actTwice.statements,
      ((Service.initial Digest.multiplicative).run actMoves).store.Sees statement := by
    simp only [← Store.canSee_iff]
    decide +kernel
  refine ⟨sees, ?_⟩
  obtain ⟨-, fails, -, -, again⟩ :=
    programs_stop_at_the_first_failure_and_repeat Digest.multiplicative actMoves 0 actTwice sees
  have stops : (Thread.advance 0 16 (.running actTwice.run.run,
      ((Service.initial Digest.multiplicative).run actMoves).store)).bind
      (fun config => Program.failedAt? config.1) = some 2 := by
    decide +kernel
  obtain ⟨⟨thread, after⟩, advances, failed⟩ := Option.bind_eq_some_iff.mp stops
  obtain ⟨error, rfl⟩ := Program.eq_of_failedAt? failed
  have ends : actTwice.run.run.Ends 0 ((Service.initial Digest.multiplicative).run actMoves).store
      (.ok (.error ⟨2, error⟩)) after :=
    ⟨_, Thread.reaches_of_advance 16 advances, rfl⟩
  exact ⟨error, after, (fails _ _).mp ends, (again _ _ after ends (.refl after)).1⟩

end ByNeed
