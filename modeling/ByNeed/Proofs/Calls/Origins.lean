import ByNeed.Proofs.Machine.OwnCode
import ByNeed.Proofs.Safety.Purity

/-!
# Where the code of a thread comes from

A thread runs the code of its request and of computations it began, one within the other.  So what
holds of the code of a request or a computation, whatever it is told, holds of every thread.
-/

namespace ByNeed

open List

variable {ρ α : Type} {store after : Store}
variable {rest : Code α} {thunk sought : Thunk} {value : Value} {chain : List Link}

/-- Whoever asked was evaluating the thunk. -/
def IsCycle (_ : Thunk) (value : Value) : Prop :=
  value = .fault .selfDependence

/-- The answers are what the thunks hold, unless whoever asked was evaluating the thunk. -/
def Store.Answers (store : Store) (asked : Asked) : Prop :=
  ∀ question ∈ asked, store.Tells IsCycle question.1 question.2

/-! ## Services -/

namespace Service

variable {service : Service} {realm : Realm} {began begun : Nat → Thunk → Suspension → Prop}
variable {number : Nat} {task : Task} {thunk : Thunk}

/-- All that the threads of a service run is the code of their requests and that of computations
that they began. -/
def Stems (service : Service) (began : Nat → Thunk → Suspension → Prop) : Prop :=
  ∀ number task, service.tasks number = some task →
    task.thread.Stems (service.store.Tells IsCycle) (began number) task.request.code

/-- A thread asks only for what has been made. -/
theorem SoundIn.holds_of_access (soundIn : service.SoundIn realm)
    (present : service.tasks number = some task)
    (access_eq : task.thread.access? = some (.claim thunk)) : service.store.Holds thunk := by
  rw [← soundIn.store_eq]
  exact (Thread.Safe.mayEvaluate (soundIn.safe _ task present) soundIn.sound
    (soundIn.bears present) access_eq).holds soundIn.sound

/-- What a move leaves to be run stems from the requests and from what has begun. -/
theorem Stems.move (stems : service.Stems began) (soundIn : service.SoundIn realm) (move : Move)
    (grown : ∀ number thunk computation, began number thunk computation →
      begun number thunk computation)
    (begins : ∀ beginning, service.begins? move = some beginning →
      begun beginning.number beginning.thunk beginning.computation) :
    (service.move move).Stems begun := by
  obtain ⟨later, le, soundLater⟩ := soundIn.move move
  have keeps : ∀ thunk value, service.store.slot? thunk = some (.evaluated value) →
      (service.move move).store.slot? thunk = some (.evaluated value) := by
    intro thunk value held
    rw [← soundIn.store_eq] at held
    rw [← soundLater.store_eq]
    exact Realm.slot?_of_le le held
  have others : ∀ number task, service.tasks number = some task →
      task.thread.Stems ((service.move move).store.Tells IsCycle) (begun number)
        task.request.code := fun number task present =>
    (stems number task present).mono (fun _ _ tells => tells.mono keeps) (grown number)
  intro number task present
  cases move with
  | step stepping =>
    cases found : service.tasks stepping with
    | none =>
      simp only [Service.move, found] at present others ⊢
      exact others number task present
    | some former =>
      rcases stepped : former.thread.step stepping service.store with ⟨result, after⟩
      simp only [Service.move, found, stepped] at present others ⊢
      cases result with
      | moved next =>
        simp only [afterStep, setTask] at present
        split at present
        · rename_i same
          subst same
          cases present
          refine (stems number former found).of_moved ?_ ?_ (fun _ => rfl) (grown number) ?_ stepped
          · exact soundIn.owned.owns number ⟨former.thread⟩ (by simp [pool, found])
          · intro thunk value access_eq evaluated
            obtain ⟨slot, held⟩ := soundIn.holds_of_access found access_eq
            rw [Store.slot_eq_of_slot? held] at evaluated
            exact .inl (evaluated ▸ held)
          · intro thunk computation access_eq owned
            exact begins ⟨number, former.request, thunk, computation⟩
              (by simp only [begins?, found, access_eq, owned])
        · exact others number task present
      | waiting => exact others number task present
      | finished outcome =>
        simp only [afterStep, setTask] at present
        split at present
        · cases present
        · exact others number task present
  | start starting request =>
    simp only [Service.move] at present others ⊢
    split at present
    · rename_i allowed
      rw [if_pos allowed] at others ⊢
      simp only [setTask] at present
      split at present
      · cases present
        exact .start _
      · exact others number task present
    · rename_i refused
      rw [if_neg refused] at others ⊢
      exact others number task present
  | _ => exact others number task present

/-- A thread began a computation in the course of moves. -/
def Began (service : Service) (moves : List Move) (number : Nat) (thunk : Thunk)
    (computation : Suspension) : Prop :=
  ∃ beginning ∈ service.beginnings moves,
    beginning.number = number ∧ beginning.thunk = thunk ∧ beginning.computation = computation

theorem beginnings_concat (service : Service) (moves : List Move) (last : Move) :
    service.beginnings (moves ++ [last]) =
      service.beginnings moves ++ ((service.run moves).begins? last).toList := by
  induction moves generalizing service with
  | nil => simp [beginnings, run]
  | cons first moves ih =>
    simp only [cons_append, beginnings, ih, append_assoc]
    rfl

/-- In every run, all that threads run is the code of their requests and that of computations
that they began. -/
theorem SoundIn.stems_run (soundIn : service.SoundIn realm)
    (unserved : ∀ number, service.tasks number = none) (moves : List Move) :
    (service.run moves).Stems (service.Began moves) := by
  induction moves using List.reverseRecOn with
  | nil =>
    intro number task present
    rw [show service.run [] = service from rfl, unserved number] at present
    cases present
  | append_singleton moves last ih =>
    obtain ⟨between, -, soundThen⟩ := soundIn.run moves
    rw [Service.run, foldl_append]
    refine ih.move soundThen last ?_ ?_
    · rintro number thunk computation ⟨beginning, mem, known⟩
      refine ⟨beginning, ?_, known⟩
      rw [beginnings_concat]
      exact mem_append_left _ mem
    · intro beginning begins
      refine ⟨beginning, ?_, rfl, rfl, rfl⟩
      rw [beginnings_concat]
      exact mem_append_right _ (Option.mem_toList.mpr begins)

end Service

end ByNeed
