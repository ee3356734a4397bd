import ByNeed.Proofs.Rally.Undisturbed

/-!
# Daemons in company

In company daemons begin only by being launched, at any time later and under any number that is
free.  So what holds after every list of shifts holds of every interleaving of threads and daemons.
-/

namespace ByNeed

variable {α : Type}

/-- What can happen in company. -/
inductive Shift where
  /-- A move of the store in service. -/
  | make (move : Move)
  /-- The daemon at a place among those launched begins, if the number is free. -/
  | adopt (place number : Nat)

/-- The thread under a number takes some steps. -/
def Shift.steps (number count : Nat) : List Shift :=
  List.replicate count (.make (.step number))

/-- The thread under a number takes its next step. -/
def Shift.isStepOf (number : Nat) : Shift → Bool
  | .make (.step stepping) => stepping == number
  | _ => false

theorem Shift.isStepOf_iff {shift : Shift} :
    shift.isStepOf number = true ↔ shift = .make (.step number) := by
  unfold isStepOf
  split
  · simp
  · rename_i other
    exact iff_of_false Bool.false_ne_true (other number)

/-- A move brings no daemon of its own. -/
def Move.isHonest : Move → Bool
  | .start _ request => request.duty?.isNone
  | _ => true

namespace Store

variable {channel : Nat}

theorem scheduler_newScheduler (store : Store) (capacity stackSize scheduler : Nat) :
    ((store.newScheduler capacity stackSize).2.scheduler scheduler).queue = some [] ∧
        (store.scheduler scheduler).queue = some [] ∨
      (store.newScheduler capacity stackSize).2.scheduler scheduler =
        store.scheduler scheduler := by
  simp only [Store.scheduler, newScheduler, Array.getD_eq_getD_getElem?, Array.getElem?_push]
  split
  · rename_i new
    refine .inl ⟨rfl, ?_⟩
    rw [Array.getElem?_eq_none (Nat.le_of_eq new.symm)]
    rfl
  · exact .inr rfl

/-- A scheduler that is made has nothing queued. -/
theorem undisturbed_newScheduler (store : Store) (capacity stackSize : Nat) :
    store.Undisturbed channel (store.newScheduler capacity stackSize).2 where
  channel_eq := rfl
  size_le := Nat.le_refl _
  launched_eq := rfl
  queues avoid scheduler queue waiting := by
    rcases store.scheduler_newScheduler capacity stackSize scheduler with ⟨empty, -⟩ | same
    · rw [empty] at waiting
      cases waiting
      exact fun _ mem => by cases mem
    · exact avoid scheduler queue (same ▸ waiting)
  started scheduler started := by
    rcases store.scheduler_newScheduler capacity stackSize scheduler with ⟨-, idle⟩ | same
    · simp [Scheduler.isStarted, idle] at started
    · rwa [same]
  readers _ := Iff.rfl

theorem undisturbed_install (store : Store) (entry : PreludeEntry) :
    store.Undisturbed channel (store.install entry) where
  channel_eq := rfl
  size_le := Nat.le_refl _
  launched_eq := rfl
  queues avoid := avoid
  started _ started := started
  readers _ := Iff.rfl

end Store

namespace Service

/-- Take a daemon from those that are launched. -/
def withdraw (service : Service) (place : Nat) : Service :=
  { service with
    store := { service.store with launched := service.store.launched.eraseIdx place } }

/-- Let a daemon begin. -/
def begin (service : Service) (number scheduler : Nat) (daemon : Daemon) : Service :=
  service.setTask number
    (some { request := .serve scheduler daemon, thread := .running (daemon.code scheduler) })

/-- Take a shift, in which a move is made if it may be. -/
def shiftIf (may : Service → Move → Bool) (service : Service) : Shift → Service
  | .make move => if may service move then service.move move else service
  | .adopt place number =>
    match service.store.launched[place]?, service.tasks number with
    | some (scheduler, daemon), none => (service.withdraw place).begin number scheduler daemon
    | _, _ => service

/-- Take a shift, in which daemons begin only by being launched. -/
def shift (service : Service) (shift : Shift) : Service :=
  service.shiftIf (fun _ move => move.isHonest) shift

/-- Take shifts in order. -/
def shifts (service : Service) (shifts : List Shift) : Service :=
  shifts.foldl shift service

theorem shifts_append (service : Service) (earlier later : List Shift) :
    service.shifts (earlier ++ later) = (service.shifts earlier).shifts later := by
  simp [shifts]

/-- The result of actions that the thread under a number carries out, in some of the shifts,
while others take the rest. -/
def carryOut (number : Nat) : Service → Code α → List Shift → Option α
  | _, .done result, _ => some result
  | service, .act action next, first :: rest =>
    if first.isStepOf number then
      match (action.perform service.store).1 with
      | some reply => carryOut number (service.shift first) (next reply) rest
      | none => carryOut number (service.shift first) (.act action next) rest
    else
      carryOut number (service.shift first) (.act action next) rest
  | _, _, _ => none

/-- What a shift can do. -/
inductive Outcome (may : Service → Move → Bool) (service : Service) : Shift → Service → Prop
  /-- Nothing happens. -/
  | idle (shift : Shift) : Outcome may service shift service
  /-- A thread takes a step. -/
  | moved {number : Nat} {request : Request} {thread next : Thread request.Result}
      {after : Store}
      (present : service.tasks number = some ⟨request, thread⟩)
      (moved : thread.step number service.store = (.moved next, after)) :
      Outcome may service (.make (.step number))
        ({ service with store := after }.setTask number (some ⟨request, next⟩))
  /-- A thread ends. -/
  | finished {number : Nat} {request : Request} {code : Code request.Result}
      (present : service.tasks number = some ⟨request, .running code⟩) :
      Outcome may service (.make (.step number)) (service.setTask number none)
  /-- A thread begins to serve a request. -/
  | started {number : Nat} {request : Request}
      (allowed : may service (.start number request) = true)
      (free : service.tasks number = none) :
      Outcome may service (.make (.start number request))
        (service.setTask number (some ⟨request, .running request.code⟩))
  /-- A daemon begins. -/
  | adopted {place number scheduler : Nat} {daemon : Daemon}
      (launched : service.store.launched[place]? = some (scheduler, daemon))
      (free : service.tasks number = none) :
      Outcome may service (.adopt place number)
        ((service.withdraw place).begin number scheduler daemon)
  /-- A scheduler or a function is made. -/
  | made {shift : Shift} {after : Store}
      (slots_eq : after.slots = service.store.slots)
      (undisturbed : ∀ channel, service.store.Undisturbed channel after) :
      Outcome may service shift { service with store := after }

variable {may : Service → Move → Bool}

theorem outcome_step (service : Service) (number : Nat) :
    Outcome may service (.make (.step number)) (service.move (.step number)) := by
  cases present : service.tasks number with
  | none =>
    simp only [move, present]
    exact .idle _
  | some task =>
    obtain ⟨request, thread⟩ := task
    simp only [move, present]
    rcases stepped : thread.step number service.store with ⟨result, after⟩
    cases result with
    | moved next => exact .moved present stepped
    | waiting =>
      obtain rfl := Thread.eq_of_waiting stepped
      exact .idle _
    | finished outcome =>
      obtain ⟨rfl, rfl⟩ := Thread.eq_of_finished stepped
      exact .finished present

theorem outcome_shiftIf (service : Service) (shift : Shift) :
    Outcome may service shift (service.shiftIf may shift) := by
  cases shift with
  | adopt place number =>
    simp only [shiftIf]
    split
    · rename_i launched free
      exact .adopted launched free
    · exact .idle _
  | make move =>
    simp only [shiftIf]
    split
    · rename_i may
      cases move with
      | step number => exact service.outcome_step number
      | start number request =>
        simp only [Service.move]
        split
        · rename_i allowed
          simp only [Bool.and_eq_true, Option.isNone_iff_eq_none] at allowed
          exact .started may allowed.1
        · exact .idle _
      | newScheduler capacity stackSize =>
        exact .made rfl fun channel => service.store.undisturbed_newScheduler capacity stackSize
      | installRally scheduler =>
        exact .made rfl fun channel => service.store.undisturbed_install _
    · exact .idle _

theorem outcome_shift (service : Service) (shift : Shift) :
    Outcome (fun _ move => move.isHonest) service shift (service.shift shift) :=
  service.outcome_shiftIf shift

/-! ## Soundness -/

variable {service : Service} {realm : Realm}

@[simp] theorem tasks_setTask_self (service : Service) (number : Nat) (task : Option Task) :
    (service.setTask number task).tasks number = task := by
  simp [setTask]

theorem tasks_setTask_of_ne (service : Service) (ne : other ≠ number) (task : Option Task) :
    (service.setTask number task).tasks other = service.tasks other := by
  simp [setTask, ne]

/-- Withdrawing a daemon mentions nothing new. -/
theorem mentions_of_withdraw (mentions : (service.withdraw place).store.Mentions thunk) :
    service.store.Mentions thunk := by
  cases mentions with
  | cell defined => exact .cell defined
  | global refers mentioned => exact .global refers mentioned
  | unread sent => exact .unread sent
  | queued waiting mem mentioned => exact .queued waiting mem mentioned
  | launched mem mentioned => exact .launched (List.mem_of_mem_eraseIdx mem) mentioned

section

variable (soundIn : service.SoundIn realm)

include soundIn

theorem SoundIn.withdraw (place : Nat) :
    ∃ later, realm ≤ later ∧ (service.withdraw place).SoundIn later :=
  soundIn.change rfl rfl (Nat.le_refl _) (fun _ => mentions_of_withdraw)
    (soundIn.owned.of_grows (.of_slots_eq rfl))

theorem SoundIn.begin (free : service.tasks number = none)
    (sees : realm.SeesAll daemon.duty.thunks) :
    (service.begin number scheduler daemon).SoundIn realm := by
  refine soundIn.start sees ?_
  have absent : service.pool.threads number = none := by simp [pool, free]
  have owned := soundIn.owned.turn (.start number (daemon.code scheduler))
  simp only [Pool.turn, absent] at owned
  rw [pool_setTask]
  exact owned

theorem SoundIn.shift (shift : Shift) :
    ∃ later, realm ≤ later ∧ (service.shift shift).SoundIn later := by
  cases shift with
  | make move =>
    simp only [Service.shift, shiftIf]
    split
    · exact soundIn.move move
    · exact ⟨realm, le_rfl, soundIn⟩
  | adopt place number =>
    simp only [Service.shift, shiftIf]
    split
    · rename_i scheduler daemon launched free
      have mem : (scheduler, daemon) ∈ realm.store.launched := by
        rw [soundIn.store_eq]
        exact List.mem_of_getElem? launched
      have sees : realm.SeesAll daemon.duty.thunks :=
        fun thunk mentioned => soundIn.sound.mentioned (.launched mem mentioned)
      obtain ⟨later, le, soundThen⟩ := soundIn.withdraw place
      exact ⟨later, le, soundThen.begin free (sees.mono le)⟩
    · exact ⟨realm, le_rfl, soundIn⟩

theorem SoundIn.shifts (shifts : List Shift) :
    ∃ later, realm ≤ later ∧ (service.shifts shifts).SoundIn later := by
  induction shifts generalizing service realm with
  | nil => exact ⟨realm, le_rfl, soundIn⟩
  | cons first rest ih =>
    obtain ⟨between, le, soundThen⟩ := soundIn.shift first
    obtain ⟨later, leLater, soundNow⟩ := ih soundThen
    exact ⟨later, le.trans leLater, soundNow⟩

/-- What is evaluated stays so. -/
theorem SoundIn.keeps (shift : Shift)
    (evaluated : service.store.slot? thunk = some (.evaluated value)) :
    (service.shift shift).store.slot? thunk = some (.evaluated value) := by
  obtain ⟨later, le, soundThen⟩ := soundIn.shift shift
  rw [← soundIn.store_eq] at evaluated
  rw [← soundThen.store_eq]
  exact Realm.slot?_of_le le evaluated

end

end Service
end ByNeed
