import Mathlib.Data.Fintype.Pigeonhole
import Mathlib.Logic.Relation
import ByNeed.Proofs.Rally.Company

/-!
# Threads that wait for each other

A thread that asks for a thunk waits while another evaluates it, and never for itself.  Threads that
evaluate thunks of one recursive group may wait for each other for ever.  Every other wait leads to
a thread that does not wait for a thunk.
-/

namespace ByNeed

open Store

variable {ρ : Type} {self : Nat} {store : Store} {thunk : Thunk}

namespace Thread

variable {thread : Thread ρ}

theorem exists_asks (access_eq : thread.access? = some (.claim thunk)) :
    ∃ answered chain stack, thread.Asks thunk answered chain stack := by
  cases thread using stepCases with
  | act | call => simp at access_eq
  | @ask thread asked answered chain stack asks =>
    rw [asks.access?_eq] at access_eq
    cases access_eq
    exact ⟨answered, chain, stack, asks⟩
  | _ => cases access_eq

theorem step_eq_waiting_iff (access_eq : thread.access? = some (.claim thunk)) :
    thread.step self store = (.waiting, store) ↔
      ∃ owner, owner ≠ self ∧ store.slot? thunk = some (.evaluating owner) := by
  constructor
  · intro waiting
    cases steps_of_step waiting with
    | block context => simp at access_eq
    | busy asks marked ne =>
      rw [asks.access?_eq] at access_eq
      cases access_eq
      exact ⟨_, ne, slot?_of_evaluating marked⟩
  · rintro ⟨owner, ne, marked⟩
    obtain ⟨answered, chain, stack, asks⟩ := exists_asks access_eq
    rw [asks.step_eq, claim_of_evaluating_other (slot_eq_of_slot? marked) ne]

end Thread

namespace Pool

variable {pool : Pool} {number owner : Nat}

/-- The thread under a number waits for a thunk that the thread under another evaluates. -/
structure Awaits (pool : Pool) (number owner : Nat) (thunk : Thunk) : Prop where
  asks : ∃ worker, pool.threads number = some worker ∧ worker.thread.access? = some (.claim thunk)
  marked : pool.store.slot? thunk = some (.evaluating owner)
  different : owner ≠ number

/-- A thread waits for another. -/
def WaitsFor (pool : Pool) (number owner : Nat) : Prop :=
  ∃ thunk, pool.Awaits number owner thunk

/-- What the thread under a number waits for, and the thread that evaluates it. -/
def awaited? (pool : Pool) (number : Nat) : Option (Thunk × Nat) :=
  match (pool.threads number).bind fun worker => worker.thread.access? with
  | some (.claim thunk) =>
    match pool.store.slot? thunk with
    | some (.evaluating owner) => if owner = number then none else some (thunk, owner)
    | _ => none
  | _ => none

theorem awaits_iff :
    pool.Awaits number owner thunk ↔ pool.awaited? number = some (thunk, owner) := by
  constructor
  · rintro ⟨⟨worker, present, access_eq⟩, marked, ne⟩
    simp [awaited?, present, access_eq, marked, ne]
  · intro awaited
    simp only [awaited?] at awaited
    split at awaited
    · rename_i asked access_eq
      split at awaited
      · rename_i marked
        split at awaited
        · cases awaited
        · rename_i ne
          cases awaited
          exact ⟨Option.bind_eq_some_iff.mp access_eq, marked, ne⟩
      · cases awaited
    · cases awaited

instance : Decidable (pool.Awaits number owner thunk) :=
  decidable_of_iff' _ awaits_iff

/-- While a thread waits, its turns change nothing. -/
theorem Awaits.turn_self (awaits : pool.Awaits number owner thunk) :
    pool.turn (.step number) = pool := by
  obtain ⟨worker, present, access_eq⟩ := awaits.asks
  have waiting := (Thread.step_eq_waiting_iff access_eq).mpr
    ⟨owner, awaits.different, awaits.marked⟩
  simp only [turn, present, waiting, afterStep]

theorem Awaits.exists_claimant (awaits : pool.Awaits number owner thunk) (owned : pool.Owned) :
    ∃ worker, pool.threads owner = some worker ∧ thunk ∈ worker.thread.claims := by
  cases present : pool.threads owner with
  | none => exact absurd awaits.marked (owned.free owner present thunk)
  | some worker =>
    exact ⟨worker, rfl, ((owned.owns owner worker present).mem_iff thunk).mpr awaits.marked⟩

/-! ## Waits that last -/

theorem threads_turn {turn : Turn} (present : pool.threads number = some worker)
    (spared : turn ≠ .step number) : (pool.turn turn).threads number = some worker := by
  cases turn with
  | step stepping =>
    have ne : number ≠ stepping := by
      rintro rfl
      exact spared rfl
    simp only [Pool.turn]
    split
    · exact present
    · rename_i found _
      rcases found.thread.step stepping pool.store with ⟨result, after⟩
      cases result with
      | waiting => exact present
      | _ => exact (threads_setThread_of_ne _ ne _).trans present
  | start starting code =>
    simp only [Pool.turn]
    split
    · rename_i free
      have ne : number ≠ starting := by
        rintro rfl
        rw [present] at free
        cases free
      exact (threads_setThread_of_ne _ ne _).trans present
    · exact present
  | change update keeps => exact present

/-- The mark of a thread stays while the thread takes no step. -/
theorem Owned.marked_turn {turn : Turn} (owned : pool.Owned)
    (marked : pool.store.slot? thunk = some (.evaluating owner)) (spared : turn ≠ .step owner) :
    (pool.turn turn).store.slot? thunk = some (.evaluating owner) := by
  obtain ⟨later, held, rfl | ⟨event, event_eq, takes⟩⟩ := owned.slot_taken turn marked
  · exact held
  · cases takes with
    | publish publisher value =>
      refine absurd ?_ spared
      cases turn with
      | step stepping =>
        simp only [event?] at event_eq
        split at event_eq
        · cases event_eq
        · rw [Option.map_eq_some_iff] at event_eq
          obtain ⟨access, -, eventOf_eq⟩ := event_eq
          cases access with
          | claim asked => cases eventOf_eq
          | publish shown shownValue =>
            cases eventOf_eq
            rfl
      | start | change => cases event_eq

/-- A thread waits on as long as the thread it waits for waits itself. -/
theorem WaitsFor.turn {next : Nat} (waits : pool.WaitsFor number owner) (owned : pool.Owned)
    (held : pool.WaitsFor owner next) (turn : Turn) : (pool.turn turn).WaitsFor number owner := by
  obtain ⟨thunk, awaits⟩ := waits
  obtain ⟨asked, heldUp⟩ := held
  by_cases ownStep : turn = .step number
  · rw [ownStep, awaits.turn_self]
    exact ⟨thunk, awaits⟩
  by_cases ownerStep : turn = .step owner
  · rw [ownerStep, heldUp.turn_self]
    exact ⟨thunk, awaits⟩
  obtain ⟨worker, present, access_eq⟩ := awaits.asks
  exact ⟨thunk,
    { asks := ⟨worker, threads_turn present ownStep, access_eq⟩
      marked := owned.marked_turn awaits.marked ownerStep
      different := awaits.different }⟩

/-- Threads that wait for each other in a row go on to do so while the last of them waits. -/
theorem waitsFor_turn_of_transGen (waits : Relation.TransGen pool.WaitsFor number owner)
    (owned : pool.Owned) (held : pool.WaitsFor owner next) (turn : Turn) :
    Relation.TransGen (pool.turn turn).WaitsFor number owner := by
  induction waits generalizing next with
  | single waits => exact .single (waits.turn owned held turn)
  | tail row waits ih =>
    exact .tail (ih waits) (waits.turn owned held turn)

/-- A thread waits for another that waits for it, directly or through others. -/
def WaitsForItself (pool : Pool) (number : Nat) : Prop :=
  Relation.TransGen pool.WaitsFor number number

section

variable (waits : pool.WaitsForItself number)

include waits

theorem WaitsForItself.exists_waitsFor : ∃ owner, pool.WaitsFor number owner := by
  obtain ⟨owner, first, -⟩ := Relation.TransGen.head'_iff.mp waits
  exact ⟨owner, first⟩

theorem WaitsForItself.turn (owned : pool.Owned) (turn : Turn) :
    (pool.turn turn).threads number = pool.threads number ∧
      (pool.turn turn).WaitsForItself number := by
  obtain ⟨owner, first⟩ := waits.exists_waitsFor
  refine ⟨?_, waitsFor_turn_of_transGen waits owned first turn⟩
  obtain ⟨thunk, awaits⟩ := first
  obtain ⟨worker, present, -⟩ := awaits.asks
  by_cases ownStep : turn = .step number
  · rw [ownStep, awaits.turn_self]
  · rw [threads_turn present ownStep, present]

theorem WaitsForItself.run (owned : pool.Owned) (turns : List Turn) :
    (pool.run turns).threads number = pool.threads number ∧
      (pool.run turns).WaitsForItself number := by
  induction turns generalizing pool with
  | nil => exact ⟨rfl, waits⟩
  | cons first turns ih =>
    obtain ⟨same, waitsThen⟩ := waits.turn owned first
    obtain ⟨sameLater, waitsLater⟩ := ih waitsThen (owned.turn first)
    exact ⟨sameLater.trans same, waitsLater⟩

end

/-! ## Where waits lead -/

/-- An endless row of waits comes back to a thread it has passed. -/
theorem exists_waitsForItself {row : Nat → Nat}
    (waits : ∀ place, pool.WaitsFor (row place) (row (place + 1))) :
    ∃ place, pool.WaitsForItself (row place) := by
  choose thunks awaits using waits
  have inBounds : ∀ place, (thunks place).slot < pool.store.slots.size := fun place =>
    (Array.getElem?_eq_some_iff.mp (awaits place).marked).1
  -- There are finitely many thunks to wait for.
  obtain ⟨first, second, ne, same⟩ := Finite.exists_ne_map_eq_of_infinite
    fun place => (⟨(thunks place).slot, inBounds place⟩ : Fin pool.store.slots.size)
  have sameThunk : thunks first = thunks second := by
    cases firstThunk : thunks first
    cases secondThunk : thunks second
    simp_all
  have forward : ∀ place count, Relation.TransGen pool.WaitsFor (row place)
      (row (place + count + 1)) := by
    intro place count
    induction count with
    | zero => exact .single ⟨_, awaits place⟩
    | succ count ih => exact .tail ih ⟨_, awaits _⟩
  have returns : ∀ earlier later, earlier < later → thunks earlier = thunks later →
      pool.WaitsForItself (row (earlier + 1)) := by
    intro earlier later before met
    have owner_eq : row (earlier + 1) = row (later + 1) := by
      have marked := (awaits earlier).marked
      rw [met, (awaits later).marked] at marked
      exact (Slot.evaluating.inj (Option.some.inj marked)).symm
    have circle := forward (earlier + 1) (later - earlier - 1)
    rw [show earlier + 1 + (later - earlier - 1) + 1 = later + 1 by omega, ← owner_eq] at circle
    exact circle
  rcases Nat.lt_or_gt_of_ne ne with before | before
  · exact ⟨first + 1, returns first second before sameThunk⟩
  · exact ⟨second + 1, returns second first before sameThunk.symm⟩

/-- From every thread, waits lead to one that does not wait for a thunk, or to threads that
wait for each other. -/
theorem exists_end_of_waits (pool : Pool) (number : Nat) :
    ∃ last, Relation.ReflTransGen pool.WaitsFor number last ∧
      ((∀ owner, ¬pool.WaitsFor last owner) ∨ pool.WaitsForItself last) := by
  by_contra endless
  push Not at endless
  have goesOn : ∀ reached : { last // Relation.ReflTransGen pool.WaitsFor number last },
      ∃ further : { last // Relation.ReflTransGen pool.WaitsFor number last },
        pool.WaitsFor reached.1 further.1 := by
    rintro ⟨last, reached⟩
    obtain ⟨⟨owner, waits⟩, -⟩ := endless last reached
    exact ⟨⟨owner, reached.tail waits⟩, waits⟩
  choose further waits using goesOn
  let row : Nat → { last // Relation.ReflTransGen pool.WaitsFor number last } :=
    fun place => further^[place] ⟨number, .refl⟩
  have rowWaits : ∀ place, pool.WaitsFor (row place).1 (row (place + 1)).1 := by
    intro place
    simp only [row, Function.iterate_succ_apply']
    exact waits _
  obtain ⟨place, circle⟩ := exists_waitsForItself rowWaits
  exact (endless _ (row place).2).2 circle

end Pool

/-- Whatever threads share, and however they take turns: a thread that asks for a thunk it is
evaluating is told that the thunk depends on itself; it waits for a thunk exactly while another
thread evaluates it, which is there and has claimed it.  All waits lead to a thread that does
not wait for a thunk, or to threads that wait for each other.  These are several, each
evaluates what another waits for, and none of them ever moves again.  While one thread
evaluates alone, it does not wait for a thunk. -/
theorem threads_wait_only_for_others (start : Pool) (idle : start.Idle) (turns : List Turn) :
    let pool := start.run turns
    (∀ number worker thunk,
      pool.threads number = some worker →
      worker.thread.access? = some (.claim thunk) →
        (pool.store.slot? thunk = some (.evaluating number) →
          ∃ answered chain stack, worker.thread.Asks thunk answered chain stack ∧
            worker.thread.step number pool.store =
              (.moved (answered (.fault .selfDependence)), pool.store)) ∧
        (worker.thread.step number pool.store = (.waiting, pool.store) ↔
          ∃ owner, pool.Awaits number owner thunk)) ∧
    (∀ number owner thunk,
      pool.Awaits number owner thunk →
        owner ≠ number ∧
        ∃ worker, pool.threads owner = some worker ∧ thunk ∈ worker.thread.claims) ∧
    (∀ number, ∃ last,
      Relation.ReflTransGen pool.WaitsFor number last ∧
      ((∀ owner, ¬pool.WaitsFor last owner) ∨ pool.WaitsForItself last)) ∧
    (∀ number, pool.WaitsForItself number →
      (∃ owner, owner ≠ number ∧ pool.WaitsFor number owner ∧ pool.WaitsForItself owner) ∧
        ∀ later,
          (pool.run later).threads number = pool.threads number ∧
          (pool.run later).WaitsForItself number) ∧
    (∀ number,
      (∀ thunk owner, pool.store.slot? thunk = some (.evaluating owner) → owner = number) →
        ∀ owner, ¬pool.WaitsFor number owner) := by
  intro pool
  have owned : pool.Owned := idle.owned.run turns
  refine ⟨?_, ?_, pool.exists_end_of_waits, ?_, ?_⟩
  · intro number worker thunk present access_eq
    constructor
    · intro marked
      obtain ⟨answered, chain, stack, asks⟩ := Thread.exists_asks access_eq
      refine ⟨answered, chain, stack, asks, ?_⟩
      rw [asks.step_eq, claim_of_evaluating_self (slot_eq_of_slot? marked)]
    · rw [Thread.step_eq_waiting_iff access_eq]
      constructor
      · rintro ⟨owner, different, marked⟩
        exact ⟨owner, ⟨worker, present, access_eq⟩, marked, different⟩
      · rintro ⟨owner, awaits⟩
        exact ⟨owner, awaits.different, awaits.marked⟩
  · intro number owner thunk awaits
    exact ⟨awaits.different, awaits.exists_claimant owned⟩
  · intro number waits
    refine ⟨?_, waits.run owned⟩
    obtain ⟨owner, first, rest⟩ := Relation.TransGen.head'_iff.mp waits
    obtain ⟨thunk, awaits⟩ := first
    exact ⟨owner, awaits.different, ⟨thunk, awaits⟩, .tail' rest ⟨thunk, awaits⟩⟩
  · rintro number alone owner ⟨thunk, awaits⟩
    exact awaits.different (alone thunk owner awaits.marked)

/-- Two threads, each of which forces a thunk that needs the value of the other. -/
def mutualForcers : Pool where
  store :=
    { slots := #[.suspended (.forced ⟨1⟩), .suspended (.forced ⟨0⟩)]
      digest := Digest.multiplicative }
  threads
    | 0 => some ⟨.running (force ⟨0⟩)⟩
    | 1 => some ⟨.running (force ⟨1⟩)⟩
    | _ => none

theorem mutualForcers_idle : mutualForcers.Idle where
  unclaimed := by
    rintro ⟨place⟩ slot held
    match place with
    | 0 | 1 =>
      cases held
      simp [mutualForcers]
    | place + 2 => simp [mutualForcers, Store.slot?] at held
  running number worker present := by
    simp only [mutualForcers] at present
    split at present
    · cases present
      exact ⟨_, rfl⟩
    · cases present
      exact ⟨_, rfl⟩
    · contradiction

/-- If both have claimed their thunks, they wait for each other.  If one of them is faster, it
meets its own thunk again. -/
theorem mutualForcers_wait_or_are_told :
    mutualForcers.Idle ∧
    (mutualForcers.run [.step 0, .step 1]).WaitsForItself 0 ∧
    (∀ later, ((mutualForcers.run [.step 0, .step 1]).run later).threads 0 =
      (mutualForcers.run [.step 0, .step 1]).threads 0) ∧
    ∃ worker answered chain stack, (mutualForcers.run [.step 0, .step 0]).threads 0 = some worker ∧
      worker.thread.Asks ⟨0⟩ answered chain stack ∧
      worker.thread.step 0 (mutualForcers.run [.step 0, .step 0]).store =
        (.moved (answered (.fault .selfDependence)),
          (mutualForcers.run [.step 0, .step 0]).store) := by
  obtain ⟨-, -, -, stuck, -⟩ :=
    threads_wait_only_for_others mutualForcers mutualForcers_idle [.step 0, .step 1]
  obtain ⟨told, -⟩ :=
    threads_wait_only_for_others mutualForcers mutualForcers_idle [.step 0, .step 0]
  have circle : (mutualForcers.run [.step 0, .step 1]).WaitsForItself 0 :=
    .tail (b := 1) (.single ⟨⟨1⟩, by decide⟩) ⟨⟨0⟩, by decide⟩
  refine ⟨mutualForcers_idle, circle, fun later => ((stuck 0 circle).2 later).1, ?_⟩
  obtain ⟨answered, chain, stack, asks, stepped⟩ := (told 0 _ ⟨0⟩ rfl rfl).1 rfl
  exact ⟨_, answered, chain, stack, rfl, asks, stepped⟩

/-- A recursive group of two sums, each of the other, whose members are the sources of a
rally. -/
def mutualSums : Expr :=
  .letRec [ ("a", .call (.name "add") [(.single, .name "b")] [] none) , ("b", .call (.name "add")
    [(.single, .name "a")] [] none) ] (.call (.name "rally") [(.single, .name "a"), (.single, .name
    "b")] [] none)

/-- The rally is built and founded, and its walker starts a worker for each sum.  The first
worker claims its source, then the second evaluates as far as it can, then the first does. -/
def mutualSumsRallied : List Shift :=
  [.make (.newScheduler 1 0), .make (.installRally 0), .make (.start 0 (.startScheduler 0))] ++
    Shift.steps 0 2 ++ [.make (.start 0 (.build mutualSums {}))] ++ Shift.steps 0 16 ++
    [.make (.start 0 (.force ⟨7⟩))] ++ Shift.steps 0 10 ++ [.adopt 0 1] ++ Shift.steps 1 20 ++
    [.adopt 0 2, .adopt 0 3] ++ Shift.steps 2 1 ++ Shift.steps 3 14 ++ Shift.steps 2 14

set_option maxRecDepth 4000 in
/-- The workers of a rally can wait for each other. -/
theorem rally_workers_wait_for_each_other :
    let pool := ((Service.initial fun _ => 0).shifts mutualSumsRallied).pool
    pool.Awaits 2 3 ⟨1⟩ ∧ pool.Awaits 3 2 ⟨0⟩ ∧ pool.WaitsForItself 2 := by
  intro pool
  have first : pool.Awaits 2 3 ⟨1⟩ := by decide +kernel
  have second : pool.Awaits 3 2 ⟨0⟩ := by decide +kernel
  exact ⟨first, second, .tail (.single ⟨⟨1⟩, first⟩) ⟨⟨0⟩, second⟩⟩

end ByNeed
