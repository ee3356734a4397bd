import ByNeed.Proofs.Safety.Stage

/-!
# Rules for attempts

How the safety of an attempt follows from the safety of its parts, and what the basic
operations on thunks need and give.
-/

namespace ByNeed

open Attempt List

variable {α β : Type} {frame : Frame} {stage : Stage frame}
variable {final : Stage frame → β → Prop} {code : Code α} {value : Value}
variable {result : α} {holds : Stage frame → β → Prop} {elements : List α} {thunk : Thunk}
variable {computation : Suspension}

namespace Code

theorem safe_pure (holds : post stage result) : (pure result : Code α).Safe post stage :=
  holds

/-- The rule for code in a `do` block. -/
theorem Safe.andThen (safe : code.Safe first stage)
    (rest : ∀ later, stage ≤ later → ∀ result, first later result →
      (following result).Safe final later) : (code >>= following).Safe final stage :=
  safe.bind rest

/-- Code for each element of a list in turn, where what holds of a result stays so. -/
theorem safe_mapM (stable : ∀ {earlier later : Stage frame} {result}, earlier ≤ later →
      holds earlier result → holds later result) {code : α → Code β}
    (each : ∀ element ∈ elements, ∀ later, stage ≤ later → (code element).Safe holds later) :
    (elements.mapM code).Safe (fun later results => ∀ result ∈ results, holds later result)
      stage := by
  induction elements generalizing stage with
  | nil => exact fun _ mem => by cases mem
  | cons element rest ih =>
    rw [mapM_cons]
    refine (each element mem_cons_self stage le_rfl).andThen
      fun first leFirst result resultHolds => ?_
    have restSafe := @ih first fun other mem later le =>
      each other (mem_cons_of_mem _ mem) later (leFirst.trans le)
    refine restSafe.andThen fun later le results resultsHold => ?_
    rintro found mem
    rcases mem_cons.mp mem with rfl | mem
    · exact stable le resultHolds
    · exact resultsHold found mem

end Code

namespace Attempt

variable {following : α → Attempt β}

/-- An attempt is safe, and its result is as wanted if it has one. -/
def Safe (post : Stage frame → α → Prop) (attempt : Attempt α) (stage : Stage frame) : Prop :=
  attempt.run.Safe (fun later outcome => ∀ result, outcome = .ok result → post later result) stage

theorem safe_run_bind {final : Stage frame → Except Error β → Prop}
    (safe : attempt.run.Safe first stage)
    (succeeds : ∀ later, stage ≤ later → ∀ result, first later (.ok result) →
      (following result).run.Safe final later)
    (fails : ∀ later, stage ≤ later → ∀ error, first later (.error error) →
      final later (.error error)) : (attempt >>= following).run.Safe final stage := by
  refine Code.Safe.bind safe fun later le outcome reached => ?_
  cases outcome with
  | ok result => exact succeeds later le result reached
  | error error => exact fails later le error reached

variable {post : Stage frame → α → Prop} {attempt : Attempt α}

theorem Safe.bind (safe : attempt.Safe post stage)
    (rest : ∀ later, stage ≤ later → ∀ result, post later result →
      (following result).Safe final later) : Safe final (attempt >>= following) stage := by
  apply safe_run_bind safe
  · intro later le result reached
    exact rest later le result (reached result rfl)
  · intro later le error reached result isOk
    cases isOk

theorem Safe.weaken (safe : attempt.Safe post stage)
    (weaker : ∀ later, stage ≤ later → ∀ result, post later result → further later result) :
    attempt.Safe further stage :=
  Code.Safe.weaken safe fun later le _ reached result isOk =>
    weaker later le result (reached result isOk)

theorem safe_pure (holds : post stage result) : Safe post (pure result) stage := by
  rintro _ ⟨⟩
  exact holds

theorem safe_throw (error : Error) : Safe post (throw error) stage := by
  rintro _ ⟨⟩

theorem safe_fault (cause : Fault) : Safe post (.fault cause) stage :=
  safe_throw cause.error

theorem safe_fault_bind (cause : Fault) (following : β → Attempt α) :
    Safe post (.fault cause >>= following) stage :=
  (safe_fault cause : Safe (fun _ _ => False) _ stage).bind fun _ _ _ impossible =>
    impossible.elim

theorem safe_ofExcept (holds : ∀ result, outcome = .ok result → post stage result) :
    Safe post (.ofExcept outcome) stage := by
  cases outcome with
  | ok result => exact safe_pure (holds result rfl)
  | error error => exact safe_throw error

theorem safe_check (outcome : Except Error α) : Safe Stage.Any (.ofExcept outcome) stage :=
  safe_ofExcept fun _ _ => trivial

/-- Code that cannot fail, as an attempt. -/
theorem safe_lift (safe : code.Safe post stage) : Safe post (ExceptT.lift code) stage := by
  refine Code.Safe.bind safe fun later _ result holds => ?_
  rintro _ ⟨⟩
  exact holds

/-- The rule for code in the `do` block of an attempt. -/
theorem safe_lift_bind (safe : code.Safe post stage)
    (rest : ∀ later, stage ≤ later → ∀ result, post later result →
      (following result).Safe final later) : Safe final (ExceptT.lift code >>= following) stage :=
  (safe_lift safe).bind rest

theorem safe_mapM (stable : ∀ {earlier later : Stage frame} {result}, earlier ≤ later →
      holds earlier result → holds later result)
    (each : ∀ element ∈ elements, ∀ later, stage ≤ later → (attempts element).Safe holds later) :
    Safe (fun later results => ∀ result ∈ results, holds later result)
      (elements.mapM attempts) stage := by
  induction elements generalizing stage with
  | nil => exact safe_pure fun _ mem => by cases mem
  | cons element rest ih =>
    rw [mapM_cons]
    refine (each element mem_cons_self stage le_rfl).bind
      fun first leFirst result resultHolds => ?_
    have restSafe := @ih first fun other mem later le =>
      each other (mem_cons_of_mem _ mem) later (leFirst.trans le)
    refine restSafe.bind fun later le results resultsHold => ?_
    refine safe_pure fun found mem => ?_
    rcases mem_cons.mp mem with rfl | mem
    · exact stable le resultHolds
    · exact resultsHold found mem

end Attempt

/-! ## Thunks -/

namespace Stage

/-- What forcing a thunk gives: what the store says from then on, or the fault of a thunk
that depends on itself. -/
def Gives (stage : Stage frame) (thunk : Thunk) (value : Value) : Prop :=
  stage.Admits value ∧ (stage.store.forced? thunk = some value ∨
      frame.held thunk ∧ value = .fault .selfDependence)

theorem Gives.admits (gives : stage.Gives thunk value) : stage.Admits value :=
  gives.1

end Stage

theorem force_safe (sees : stage.store.Sees thunk) :
    (force thunk).Safe (fun later value => later.Gives thunk value) stage := by
  refine ⟨.inl sees, fun later _ value answers => ?_⟩
  refine ⟨answers.1.purely, ?_⟩
  rcases answers.2 with evaluated | ⟨held, rfl⟩
  · left
    simp [Store.forced?, evaluated]
  · exact .inr ⟨held, rfl⟩

theorem newValue_safe (admits : stage.Admits value) : (newValue value).Safe
      (fun later thunk => later.store.slot? thunk = some (.evaluated value)) stage :=
  ⟨admits, fun _ _ _ answers => answers⟩

/-- A thunk made for a value can be seen. -/
theorem newValue_sees (admits : stage.Admits value) : (newValue value).Safe Stage.Seen stage :=
  (newValue_safe admits).weaken fun _ _ _ evaluated => Store.sees_of_evaluated evaluated

theorem suspend_sees (sees : stage.SeesAll computation.thunks)
    (noBody : computation.isBody = false) : (suspend computation).Safe Stage.Seen stage :=
  ⟨sees, fun _ _ _ answers => answers.2 noBody⟩

theorem suspend_holds (sees : stage.SeesAll computation.thunks) :
    (suspend computation).Safe (fun later thunk => later.store.Holds thunk) stage :=
  ⟨sees, fun _ _ _ answers => answers.1⟩

/-- Doing what is allowed, without relying on the reply. -/
theorem perform_safe (allowed : action.Allowed stage.toRealm) :
    (Code.perform action).Safe Stage.Any stage := by
  cases action with
  | identity => exact fun later _ _ _ => ⟨later, le_rfl, rfl, trivial⟩
  | _ => exact ⟨allowed, fun _ _ _ _ => trivial⟩

section Force

variable {thunk : Thunk} (sees : stage.store.Sees thunk)

include sees

theorem forceList_safe : (forceList thunk).Safe
      (fun later cells => later.SeesAll cells.thunks ∧ later.store.forcedList? thunk = some cells)
      stage := by
  refine safe_lift_bind (force_safe sees) fun later _ value gives => ?_
  refine safe_ofExcept fun cells isList => ?_
  cases value with
  | list found =>
    cases isList
    refine ⟨gives.admits, ?_⟩
    rcases gives.2 with known | ⟨-, isFault⟩
    · simp [Store.forcedList?, known]
    · cases isFault
  | _ => cases isList

theorem forceList_sees :
    (forceList thunk).Safe (fun later cells => later.SeesAll cells.thunks) stage :=
  (forceList_safe sees).weaken fun _ _ _ holds => holds.1

theorem forceDictionary_safe : (forceDictionary thunk).Safe Stage.Admitted stage := by
  refine safe_lift_bind (force_safe sees) fun later _ value gives => ?_
  refine safe_ofExcept fun entries isDictionary => ?_
  cases value with
  | dictionary found =>
    cases isDictionary
    exact gives.admits
  | _ => cases isDictionary

theorem forceNumber_safe : (forceNumber thunk).Safe Stage.Any stage :=
  safe_lift_bind (force_safe sees) fun _ _ _ _ => safe_check _

end Force
end ByNeed
