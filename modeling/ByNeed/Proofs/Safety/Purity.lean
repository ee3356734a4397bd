import Mathlib.Data.List.Induction
import ByNeed.Proofs.Safety.Service

/-!
# Effects run only where they are asked for

The body of an effectful call is sealed.  A safe thread asks only for thunks it can see, and for the
payload of the one effect that it may run.  So a body begins only in a thread that was asked to run
the effect, and only where the effect is the value of the thunk that was named.
-/

namespace ByNeed

open List

variable {realm : Realm}

/-- A thunk whose computation has begun. -/
def Store.Begun (store : Store) (thunk : Thunk) : Prop :=
  ∃ slot, store.slot? thunk = some slot ∧ ∀ computation, slot ≠ .suspended computation

theorem Store.Begun.mono {earlier later : Realm} (begun : earlier.store.Begun thunk)
    (le : earlier ≤ later) : later.store.Begun thunk := by
  obtain ⟨slot, held, unsuspended⟩ := begun
  obtain ⟨next, nextHeld, becomes⟩ := le.slots thunk slot held
  refine ⟨next, nextHeld, fun computation suspended => ?_⟩
  subst suspended
  cases becomes
  exact unsuspended computation rfl

namespace Service

variable {service : Service}
variable {move : Move} {begun : Beginning} {number : Nat} {task : Task}

theorem event?_of_begins (begins : service.begins? move = some begun) :
    ∃ task, move = .step begun.number ∧ service.tasks begun.number = some task ∧
      begun.request = task.request ∧ task.thread.access? = some (.claim begun.thunk) ∧
      service.pool.event? (.step begun.number) =
        some (.claimed begun.number begun.thunk (.owned begun.computation)) := by
  cases move with
  | step number =>
    simp only [begins?] at begins
    split at begins
    · cases begins
    · rename_i task present
      split at begins
      · rename_i thunk asks
        split at begins
        · rename_i computation owned
          cases begins
          refine ⟨task, rfl, present, rfl, asks, ?_⟩
          have threads : service.pool.threads number = some ⟨task.thread⟩ := by
            simp [pool, present]
          simp only [Pool.event?, threads, asks, Option.map_some, Pool.eventOf]
          rw [show service.pool.store = service.store from rfl, owned]
        · cases begins
      · cases begins
  | _ => cases begins

section

variable (soundIn : service.SoundIn realm) (begins : service.begins? move = some begun)

include soundIn begins

theorem SoundIn.suspended_of_begins :
    service.store.slot? begun.thunk = some (.suspended begun.computation) ∧
      (service.move move).store.Begun begun.thunk := by
  obtain ⟨task, rfl, present, -, -, event_eq⟩ := event?_of_begins begins
  obtain ⟨suspended, evaluating, -⟩ := soundIn.owned.suspended_of_handsOut event_eq
  refine ⟨suspended, .evaluating begun.number, ?_, fun computation => by rintro ⟨⟩⟩
  have same :
      (service.move (.step begun.number)).pool = service.pool.turn (.step begun.number) := by
    have threads : service.pool.threads begun.number = some ⟨task.thread⟩ := by
      simp [pool, present]
    simp only [Service.move, present, Pool.turn, threads]
    exact pool_afterStep service begun.number task _
  rw [← same] at evaluating
  exact evaluating

theorem SoundIn.runs_of_begins (isBody : begun.computation.isBody = true) :
    ∃ source identity, begun.request = .forceImpure source ∧
      service.store.slot? source = some (.evaluated (.effect identity begun.thunk)) := by
  obtain ⟨suspended, -⟩ := soundIn.suspended_of_begins begins
  obtain ⟨task, rfl, present, request_eq, access_eq, -⟩ := event?_of_begins begins
  have may := Thread.Safe.mayEvaluate (soundIn.safe _ task present) soundIn.sound
    (soundIn.bears present) access_eq
  rw [← soundIn.store_eq] at suspended ⊢
  rcases may with ⟨slot, held, unsealed⟩ | ⟨source, identity, runs, evaluated⟩
  · -- What can be seen is not sealed.
    rw [suspended] at held
    cases held
    rw [Slot.isSealed, isBody] at unsealed
    contradiction
  · refine ⟨source, identity, ?_, evaluated⟩
    rw [request_eq]
    change task.request.runs = some source at runs
    cases served : task.request with
    | forceImpure thunk =>
      rw [served] at runs
      cases runs
      rfl
    | _ =>
      rw [served] at runs
      cases runs

end

/-- A request that is served has the result it should have. -/
theorem SoundIn.answers_of_finished (soundIn : service.SoundIn realm)
    (present : service.tasks number = some task) {store after : Store}
    (finished : task.thread.step number store = (.finished (.ok result), after)) :
    task.request.Answers result := by
  let stage : Stage (task.request.frame number) :=
    { toRealm := realm, sound := soundIn.sound, fits := fun _ held => held.elim }
  exact Thread.Safe.of_finished (soundIn.safe number task present) finished (le_refl stage.toRealm)

/-! ## Whole runs -/

theorem exists_of_mem_beginnings (mem : begun ∈ service.beginnings moves) :
    ∃ before move after, moves = before ++ move :: after ∧
      (service.run before).begins? move = some begun := by
  induction moves generalizing service with
  | nil => cases mem
  | cons first moves ih =>
    rw [beginnings, mem_append, Option.mem_toList] at mem
    rcases mem with atOnce | later
    · exact ⟨[], first, moves, rfl, atOnce⟩
    · obtain ⟨before, move, after, rfl, begins⟩ := ih later
      exact ⟨first :: before, move, after, rfl, begins⟩

theorem SoundIn.countP_eq_zero (soundIn : service.SoundIn realm) {thunk : Thunk}
    (begun : service.store.Begun thunk) (moves : List Move) :
    (service.beginnings moves).countP (fun begun => begun.thunk = thunk) = 0 := by
  induction moves generalizing service realm with
  | nil => rfl
  | cons first moves ih =>
    obtain ⟨later, le, soundLater⟩ := soundIn.move first
    have begunLater : (service.move first).store.Begun thunk := by
      rw [← soundIn.store_eq] at begun
      rw [← soundLater.store_eq]
      exact begun.mono le
    rw [beginnings, countP_append, ih soundLater begunLater]
    cases begins : service.begins? first with
    | none => rfl
    | some other =>
      have ne : other.thunk ≠ thunk := by
        rintro rfl
        obtain ⟨suspended, -⟩ := soundIn.suspended_of_begins begins
        obtain ⟨slot, held, unsuspended⟩ := begun
        rw [suspended] at held
        exact unsuspended _ (Option.some.inj held).symm
      simp [ne]

/-- The computation of a thunk begins once at most. -/
theorem SoundIn.countP_le_one (soundIn : service.SoundIn realm) (thunk : Thunk)
    (moves : List Move) :
    (service.beginnings moves).countP (fun begun => begun.thunk = thunk) ≤ 1 := by
  induction moves generalizing service realm with
  | nil => exact Nat.zero_le 1
  | cons first moves ih =>
    obtain ⟨later, -, soundLater⟩ := soundIn.move first
    rw [beginnings, countP_append]
    cases begins : service.begins? first with
    | none => simpa using ih soundLater
    | some begun =>
      by_cases same : begun.thunk = thunk
      · subst same
        obtain ⟨-, begunLater⟩ := soundIn.suspended_of_begins begins
        rw [soundLater.countP_eq_zero begunLater]
        simp
      · simpa [same] using ih soundLater

theorem request_of_move (present : (service.move move).tasks number = some task) :
    (∃ thread, service.tasks number = some ⟨task.request, thread⟩) ∨
      move = .start number task.request := by
  cases move with
  | step stepping =>
    left
    simp only [Service.move] at present
    split at present
    · exact ⟨task.thread, present⟩
    · rename_i former formerPresent
      unfold afterStep at present
      split at present
      · simp only [setTask] at present
        split at present
        · subst stepping
          cases present
          exact ⟨former.thread, formerPresent⟩
        · exact ⟨task.thread, present⟩
      · exact ⟨task.thread, present⟩
      · simp only [setTask] at present
        split at present
        · cases present
        · exact ⟨task.thread, present⟩
  | start starting request =>
    simp only [Service.move] at present
    split at present
    · simp only [setTask] at present
      split at present
      · subst starting
        cases present
        exact .inr rfl
      · exact .inl ⟨task.thread, present⟩
    · exact .inl ⟨task.thread, present⟩
  | _ => exact .inl ⟨task.thread, present⟩

/-- Whoever serves a request was asked to. -/
theorem start_mem_of_task (unserved : ∀ number, service.tasks number = none)
    (present : (service.run moves).tasks number = some task) :
    .start number task.request ∈ moves := by
  induction moves using List.reverseRecOn generalizing task with
  | nil =>
    rw [show service.run [] = service from rfl, unserved number] at present
    cases present
  | append_singleton moves last ih =>
    rw [run, foldl_append] at present
    rcases request_of_move present with ⟨thread, before⟩ | rfl
    · have started := ih before
      exact mem_append_left _ started
    · exact mem_append_right _ (mem_singleton.mpr rfl)

end Service

/-- The call of an effectful function binds its arguments and makes an effect that holds
the body; it runs nothing.  From then on, in every run of every program, evaluation gives
no effect.  The body of a call begins only for a request to run the effect of a thunk, where
the value of the thunk is the effect that holds this body; and it begins once at most, however
often the effect is run.  Where no effect is run, no body begins. -/
theorem bodies_begin_only_where_effects_are_run (digest : List Piece → UInt64) (moves : List Move) :
    let service := (Service.initial digest).run moves
    (∀ identity name signature body arguments,
      Function.call (.plain identity name signature true body) arguments = do
        let bound ← signature.bind arguments
        newEffect (← suspend (.invoke body signature.names bound))) ∧
    (∀ number task result after,
      service.tasks number = some task →
      task.thread.step number service.store = (.finished (.ok result), after) →
        task.request.Answers result) ∧
    (∀ move begun,
      service.begins? move = some begun →
      begun.computation.isBody = true →
      ∃ source identity,
        begun.request = .forceImpure source ∧
        service.store.slot? source = some (.evaluated (.effect identity begun.thunk))) ∧
    (∀ thunk, ((Service.initial digest).beginnings moves).countP
      (fun begun => begun.thunk = thunk) ≤ 1) ∧
    ((∀ number source, .start number (.forceImpure source) ∉ moves) →
      ∀ begun ∈ (Service.initial digest).beginnings moves,
        begun.computation.isBody = false) := by
  have soundIn := Service.soundIn_initial digest
  obtain ⟨realm, -, soundNow⟩ := soundIn.run moves
  refine ⟨fun _ _ _ _ _ => rfl, ?_, ?_, fun thunk => soundIn.countP_le_one thunk moves, ?_⟩
  · intro number task result after present finished
    exact soundNow.answers_of_finished present finished
  · intro move begun begins isBody
    exact soundNow.runs_of_begins begins isBody
  · intro pure begun mem
    by_contra isBody
    obtain ⟨before, move, after, rfl, begins⟩ := Service.exists_of_mem_beginnings mem
    obtain ⟨then_, -, soundThen⟩ := soundIn.run before
    obtain ⟨source, identity, request_eq, -⟩ :=
      soundThen.runs_of_begins begins (Bool.not_eq_false _ ▸ isBody)
    obtain ⟨task, -, present, same, -⟩ := Service.event?_of_begins begins
    have started := Service.start_mem_of_task (fun _ => rfl) present
    rw [← same, request_eq] at started
    exact pure _ source (List.mem_append_left _ started)

/-- A call of an effectful function is built and evaluated purely. -/
def pureMoves : List Move :=
  .start 0 (.build
      (.call (.function "act" [] none [] none .effectful (.literal .nil)) [] [] none) []) ::
    List.replicate 4 (.step 0) ++ .start 0 (.force ⟨1⟩) :: List.replicate 9 (.step 0)

/-- The effect of the call is run. -/
def impureMoves : List Move :=
  pureMoves ++ [.start 0 (.forceImpure ⟨1⟩), .step 0]

theorem bodies_begin_only_where_effects_are_run_of_call :
    (∀ begun ∈ (Service.initial Digest.multiplicative).beginnings pureMoves,
      begun.computation.isBody = false) ∧
    ∃ begun, ((Service.initial Digest.multiplicative).run impureMoves).begins? (.step 0) =
        some begun ∧ begun.computation.isBody = true ∧
      ∃ source identity, begun.request = .forceImpure source ∧
        ((Service.initial Digest.multiplicative).run impureMoves).store.slot? source =
          some (.evaluated (.effect identity begun.thunk)) := by
  obtain ⟨-, -, -, -, pure⟩ :=
    bodies_begin_only_where_effects_are_run Digest.multiplicative pureMoves
  obtain ⟨-, -, impure, -⟩ :=
    bodies_begin_only_where_effects_are_run Digest.multiplicative impureMoves
  refine ⟨pure fun number source mem => ?_, ?_⟩
  · simp [pureMoves] at mem
  · have begins : (((Service.initial Digest.multiplicative).run impureMoves).begins?
        (.step 0)).any (fun begun => begun.computation.isBody) = true := by
      decide +kernel
    rw [Option.any_eq_true] at begins
    obtain ⟨begun, begins, isBody⟩ := begins
    exact ⟨begun, begins, isBody, impure _ begun begins isBody⟩

end ByNeed
