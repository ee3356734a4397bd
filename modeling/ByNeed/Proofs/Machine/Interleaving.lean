import ByNeed.Proofs.Machine.Pool

/-!
# Evaluation under every interleaving

Every slot moves from suspended to evaluating to evaluated, its computation is handed out once, and
its value is published by the thread that was given the computation.  The invariant is `Pool.Owned`:
each thread has claimed exactly the thunks that bear its number.
-/

namespace ByNeed

open Store
namespace Pool

variable {pool : Pool}
variable {number : Nat} {thunk : Thunk} {worker : Worker}

/-- The thread under a number is about to run the computation of a thunk. -/
def Begins (pool : Pool) (number : Nat) (thunk : Thunk) (computation : Suspension) : Prop :=
  ∃ (Result : Type) (chain : List Link) (stack : Stack Result), pool.threads number =
      some ⟨.driving computation.resume (⟨thunk, computation.site⟩ :: chain) stack⟩

/-- What a turn can do to the slots, and the event that goes with it. -/
inductive Advance (pool : Pool) (turn : Turn) : Prop
  /-- The slots that are there stay as they are, and nothing is handed out or
  published. -/
  | keep
      (grows : pool.store.Grows (pool.turn turn).store)
      (unpublished : ∀ number thunk value, pool.event? turn ≠ some (.published number thunk value))
      (refused : ∀ number thunk computation,
        pool.event? turn ≠ some (.claimed number thunk (.owned computation)))
  /-- A thread is given the computation of a suspended thunk and begins to run it. -/
  | claim (number : Nat) (thunk : Thunk) (computation : Suspension)
      (event_eq : pool.event? turn = some (.claimed number thunk (.owned computation)))
      (suspended : pool.store.slot? thunk = some (.suspended computation))
      (store_eq : (pool.turn turn).store = pool.store.setSlot thunk (.evaluating number))
      (begins : (pool.turn turn).Begins number thunk computation)
  /-- A thread publishes a thunk that it has claimed. -/
  | publish (number : Nat) (thunk : Thunk) (value : Value)
      (event_eq : pool.event? turn = some (.published number thunk value))
      (marked : pool.store.slot? thunk = some (.evaluating number))
      (store_eq : (pool.turn turn).store = pool.store.publish thunk value)

/-- A turn without an event leaves the slots that are there alone. -/
theorem Advance.of_no_event {turn : Turn} (event_eq : pool.event? turn = none)
    (grows : pool.store.Grows (pool.turn turn).store) : pool.Advance turn :=
  .keep grows (by simp [event_eq]) (by simp [event_eq])

/-- The step of a thread that changes no slot hands out and publishes nothing. -/
theorem Advance.of_passive (present : pool.threads number = some worker)
    (passive : worker.thread.Passive pool.store)
    (grows : pool.store.Grows (pool.turn (.step number)).store) : pool.Advance (.step number) := by
  have event_eq : pool.event? (.step number) = worker.thread.access?.map (pool.eventOf number) := by
    simp only [event?, present]
  refine .keep grows ?_ ?_
  · intro other thunk value published
    rw [event_eq, Option.map_eq_some_iff] at published
    obtain ⟨access, access_eq, eventOf_eq⟩ := published
    cases access with
    | claim asked => cases eventOf_eq
    | publish shown shownValue => exact passive.unpublished shown shownValue access_eq
  · intro other thunk computation handedOut
    rw [event_eq, Option.map_eq_some_iff] at handedOut
    obtain ⟨access, access_eq, eventOf_eq⟩ := handedOut
    cases access with
    | claim asked =>
      simp only [eventOf, Event.claimed.injEq] at eventOf_eq
      obtain ⟨rfl, rfl, owned⟩ := eventOf_eq
      exact passive.refused asked access_eq computation (slot?_of_owned owned)
    | publish shown shownValue => cases eventOf_eq

theorem Owned.advance_step (owned : pool.Owned) (present : pool.threads number = some worker) :
    pool.Advance (.step number) := by
  have turn_eq : pool.turn (.step number) =
      pool.afterStep number (worker.thread.step number pool.store) := by
    simp only [turn, present]
  have outcome := worker.thread.outcome_step number pool.store
  rcases stepped : worker.thread.step number pool.store with ⟨result, after⟩
  rw [stepped] at outcome turn_eq
  have store_eq : (pool.turn (.step number)).store = after := by
    rw [turn_eq]
    cases result <;> rfl
  cases result with
  | moved next =>
    cases outcome with
    | keep passive _ grows =>
      exact .of_passive present passive (by rwa [store_eq])
    | claim thunk computation chain stack access_eq suspended _ =>
      refine .claim number thunk computation ?_ suspended store_eq ⟨_, chain, stack, ?_⟩
      · simp [event?, present, access_eq, eventOf,
          claim_of_suspended (slot_eq_of_slot? suspended)]
      · rw [turn_eq]
        exact threads_setThread_self _ number _
    | publish thunk value access_eq claims_eq =>
      have marked := (owned.owns number worker present).slot?_head claims_eq
      refine .publish number thunk value ?_ marked store_eq
      simp [event?, present, access_eq, eventOf]
  | waiting => exact .of_passive present outcome.1 (by rw [store_eq]; exact outcome.2)
  | finished _ => exact .of_passive present outcome.1 (by rw [store_eq]; exact outcome.2.1)

theorem Owned.advance (owned : pool.Owned) (turn : Turn) : pool.Advance turn := by
  cases turn with
  | step number =>
    cases present : pool.threads number with
    | none =>
      exact .of_no_event (by simp [event?, present]) (.of_slots_eq (by simp [Pool.turn, present]))
    | some worker => exact owned.advance_step present
  | start number code =>
    refine .of_no_event rfl (.of_slots_eq ?_)
    simp only [Pool.turn]
    split <;> rfl
  | change update keeps => exact .of_no_event rfl (.of_slots_eq (keeps _))

/-! ## The invariant -/

theorem Idle.owned (idle : pool.Idle) : pool.Owned where
  owns number worker present := by
    obtain ⟨code, thread_eq⟩ := idle.running number worker present
    refine ⟨by simp [thread_eq], fun thunk => ?_⟩
    constructor
    · simp [thread_eq]
    · intro marked
      exact absurd ⟨number, rfl⟩ (idle.unclaimed thunk _ marked)
  free number _ thunk marked :=
    idle.unclaimed thunk _ marked ⟨number, rfl⟩

section

variable (owned : pool.Owned)

include owned

theorem Owned.of_grows (grows : pool.store.Grows after) : { pool with store := after }.Owned where
  owns number worker present := (owned.owns number worker present).of_grows rfl grows
  free number absent thunk marked :=
    owned.free number absent thunk ((grows.evaluating_iff thunk number).mp marked)

/-- A thread may take the place of another if it owns what it has claimed and the
marks of the others are as they were. -/
theorem Owned.setThread {worker : Option Worker}
    (others : ∀ other, other ≠ number → ∀ thunk, after.slot? thunk = some (.evaluating other) ↔
        pool.store.slot? thunk = some (.evaluating other))
    (owns : ∀ replacement, worker = some replacement → replacement.thread.Owns number after)
    (free : worker = none → ∀ thunk, after.slot? thunk ≠ some (.evaluating number)) :
    ({ pool with store := after }.setThread number worker).Owned where
  owns other found present := by
    by_cases same : other = number
    · subst other
      rw [threads_setThread_self] at present
      exact owns found present
    · rw [threads_setThread_of_ne _ same] at present
      have former := owned.owns other found present
      exact ⟨former.nodup, fun thunk =>
        (former.mem_iff thunk).trans (others other same thunk).symm⟩
  free other absent thunk := by
    by_cases same : other = number
    · subst other
      rw [threads_setThread_self] at absent
      exact free absent thunk
    · rw [threads_setThread_of_ne _ same] at absent
      intro marked
      exact owned.free other absent thunk ((others other same thunk).mp marked)

theorem Owned.afterStep (present : pool.threads number = some worker) :
    (pool.afterStep number (worker.thread.step number pool.store)).Owned := by
  have owns := owned.owns number worker present
  have outcome := worker.thread.outcome_step number pool.store
  rcases stepped : worker.thread.step number pool.store with ⟨result, after⟩
  rw [stepped] at outcome
  cases result with
  | moved next =>
    refine owned.setThread (fun other ne => ?_) ?_ (by simp)
    · exact owns.evaluating_other_iff outcome ne
    · rintro _ ⟨rfl⟩
      exact owns.of_progress outcome
  | waiting => exact owned.of_grows outcome.2
  | finished _ =>
    obtain ⟨-, grows, claims_eq⟩ := outcome
    refine owned.setThread (fun other _ thunk => grows.evaluating_iff thunk other) (by simp) ?_
    intro _ thunk marked
    have claimed := (owns.mem_iff thunk).mpr ((grows.evaluating_iff thunk number).mp marked)
    rw [claims_eq] at claimed
    contradiction

/-- Every turn keeps the invariant. -/
theorem Owned.turn (turn : Turn) : (pool.turn turn).Owned := by
  cases turn with
  | step number =>
    cases present : pool.threads number with
    | none => simpa [Pool.turn, present] using owned
    | some worker => simpa [Pool.turn, present] using owned.afterStep present
  | start number code =>
    cases present : pool.threads number with
    | none =>
      simp only [Pool.turn, present]
      refine owned.setThread (fun _ _ _ => Iff.rfl) ?_ (by simp)
      rintro _ ⟨rfl⟩
      exact ⟨by simp, fun thunk => by simp [owned.free number present thunk]⟩
    | some worker => simpa [Pool.turn, present] using owned
  | change update keeps => exact owned.of_grows (.of_slots_eq (keeps _))

/-- Every schedule keeps the invariant. -/
theorem Owned.run (turns : List Turn) : (pool.run turns).Owned := by
  induction turns generalizing pool with
  | nil => exact owned
  | cons first turns ih => exact ih (owned.turn first)

/-! ## What follows for slots -/

theorem Owned.slot_taken (turn : Turn) {slot : Slot} (held : pool.store.slot? thunk = some slot) :
    ∃ later, (pool.turn turn).store.slot? thunk = some later ∧
      (later = slot ∨ ∃ event, pool.event? turn = some event ∧ event.Takes thunk slot later) := by
  cases owned.advance turn with
  | keep grows => exact ⟨slot, grows.keeps thunk slot held, .inl rfl⟩
  | claim number claimed computation event_eq suspended store_eq =>
    rw [store_eq]
    rcases slot?_setSlot_cases suspended _ held with ⟨rfl, rfl, marked⟩ | kept
    · exact ⟨_, marked, .inr ⟨_, event_eq, .claim number computation⟩⟩
    · exact ⟨slot, kept, .inl rfl⟩
  | publish number published value event_eq marked store_eq =>
    rw [store_eq]
    rcases slot?_setSlot_cases marked _ held with ⟨rfl, rfl, evaluated⟩ | kept
    · exact ⟨_, evaluated, .inr ⟨_, event_eq, .publish number value⟩⟩
    · exact ⟨slot, kept, .inl rfl⟩

theorem Owned.evaluated_run (turns : List Turn) {value : Value}
    (held : pool.store.slot? thunk = some (.evaluated value)) :
    (pool.run turns).store.slot? thunk = some (.evaluated value) := by
  induction turns generalizing pool with
  | nil => exact held
  | cons first turns ih =>
    obtain ⟨later, later_eq, rfl | ⟨event, -, takes⟩⟩ := owned.slot_taken first held
    · exact ih (owned.turn first) later_eq
    · cases takes

theorem Owned.suspended_of_handsOut {turn : Turn}
    (event_eq : pool.event? turn = some (.claimed number thunk (.owned computation))) :
    pool.store.slot? thunk = some (.suspended computation) ∧ (pool.turn turn).store.slot? thunk =
      some (.evaluating number) ∧ (pool.turn turn).Begins number thunk computation := by
  cases owned.advance turn with
  | keep _ _ refused => exact absurd event_eq (refused number thunk computation)
  | claim _ _ _ claimed_eq suspended store_eq begins =>
    rw [event_eq] at claimed_eq
    cases claimed_eq
    exact ⟨suspended, by rw [store_eq, slot?_setSlot_self suspended], begins⟩
  | publish _ _ _ published_eq =>
    rw [event_eq] at published_eq
    cases published_eq

theorem Owned.marked_of_published {turn : Turn}
    (event_eq : pool.event? turn = some (.published number thunk value)) :
    pool.store.slot? thunk = some (.evaluating number) ∧
      (pool.turn turn).store.slot? thunk = some (.evaluated value) := by
  cases owned.advance turn with
  | keep _ unpublished => exact absurd event_eq (unpublished number thunk value)
  | claim _ _ _ claimed_eq =>
    rw [event_eq] at claimed_eq
    cases claimed_eq
  | publish _ _ _ published_eq marked store_eq =>
    rw [event_eq] at published_eq
    cases published_eq
    exact ⟨marked, by rw [store_eq, Store.publish, slot?_setSlot_self marked]⟩

end

theorem reply_eq_of_claimed {turn : Turn}
    (event_eq : pool.event? turn = some (.claimed number thunk reply)) :
    reply = (pool.store.claim number thunk).1 := by
  cases turn with
  | step stepping =>
    simp only [event?] at event_eq
    split at event_eq
    · contradiction
    · rw [Option.map_eq_some_iff] at event_eq
      obtain ⟨access, -, eventOf_eq⟩ := event_eq
      cases access <;> cases eventOf_eq
      rfl
  | start | change => cases event_eq

theorem Owned.countP_handsOut_eq_zero (owned : pool.Owned) (turns : List Turn) {slot : Slot}
    (held : pool.store.slot? thunk = some slot)
    (unsuspended : ∀ computation, slot ≠ .suspended computation) :
    (pool.events turns).countP (Event.handsOut thunk) = 0 := by
  induction turns generalizing pool slot with
  | nil => rfl
  | cons first turns ih =>
    obtain ⟨later, later_eq, taken⟩ := owned.slot_taken first held
    have laterUnsuspended : ∀ computation, later ≠ .suspended computation := by
      rcases taken with rfl | ⟨event, -, takes⟩
      · exact unsuspended
      · cases takes <;> simp
    rw [events, List.countP_append, ih (owned.turn first) later_eq laterUnsuspended, Nat.add_zero,
      List.countP_eq_zero]
    intro event mem handsOut
    rw [Option.mem_toList] at mem
    obtain ⟨number, computation, rfl⟩ := Event.handsOut_iff.mp handsOut
    obtain ⟨suspended, -⟩ := owned.suspended_of_handsOut mem
    rw [held] at suspended
    exact unsuspended computation (Option.some.inj suspended)

/-- The computation of a thunk is handed out once at most. -/
theorem Owned.countP_handsOut_le_one (owned : pool.Owned) (turns : List Turn) (thunk : Thunk) :
    (pool.events turns).countP (Event.handsOut thunk) ≤ 1 := by
  induction turns generalizing pool with
  | nil => exact Nat.zero_le 1
  | cons first turns ih =>
    rw [events, List.countP_append]
    cases event_eq : pool.event? first with
    | none => simpa using ih (owned.turn first)
    | some event =>
      cases handsOut : event.handsOut thunk with
      | false => simpa [handsOut] using ih (owned.turn first)
      | true =>
        -- From here on the thunk is marked, so nothing more is handed out.
        obtain ⟨number, computation, rfl⟩ := Event.handsOut_iff.mp handsOut
        obtain ⟨-, marked, -⟩ := owned.suspended_of_handsOut event_eq
        rw [(owned.turn first).countP_handsOut_eq_zero turns marked (by simp)]
        simp [handsOut]

end Pool

/-- However many threads share whatever thunks, and however their steps are
interleaved: every slot moves from suspended to evaluating to evaluated, the first when
its computation is handed out and the second when its value is published; the
computation is handed out once at most, to a thread that finds the thunk suspended
and begins to run it; the value is published by the thread whose mark the slot bears;
and once it is evaluated, every thread that asks is told that value. -/
theorem evaluates_once_under_every_schedule (start : Pool) (idle : start.Idle) :
    (∀ earlier turn thunk slot, (start.run earlier).store.slot? thunk = some slot →
        ∃ later, (start.run (earlier ++ [turn])).store.slot? thunk = some later ∧
          (later = slot ∨ ∃ event,
            (start.run earlier).event? turn = some event ∧ event.Takes thunk slot later)) ∧
    (∀ turns thunk, (start.events turns).countP (Event.handsOut thunk) ≤ 1) ∧
    (∀ earlier turn number thunk computation,
      (start.run earlier).event? turn = some (.claimed number thunk (.owned computation)) →
        (start.run earlier).store.slot? thunk = some (.suspended computation) ∧
        (start.run (earlier ++ [turn])).store.slot? thunk = some (.evaluating number) ∧
        (start.run (earlier ++ [turn])).Begins number thunk computation) ∧
    (∀ earlier turn number thunk value,
      (start.run earlier).event? turn = some (.published number thunk value) →
        (start.run earlier).store.slot? thunk = some (.evaluating number) ∧
        (start.run (earlier ++ [turn])).store.slot? thunk = some (.evaluated value)) ∧
    (∀ earlier later turn number thunk value reply,
      (start.run earlier).store.slot? thunk = some (.evaluated value) →
      (start.run (earlier ++ later)).event? turn = some (.claimed number thunk reply) →
        reply = .ready value) := by
  have run_snoc : ∀ earlier turn,
      start.run (earlier ++ [turn]) = (start.run earlier).turn turn := by
    intro earlier turn
    rw [Pool.run_append, Pool.run_cons, Pool.run_nil]
  refine ⟨?_, idle.owned.countP_handsOut_le_one, ?_, ?_, ?_⟩
  · intro earlier turn thunk slot held
    rw [run_snoc]
    exact (idle.owned.run earlier).slot_taken turn held
  · intro earlier turn number thunk computation event_eq
    rw [run_snoc]
    exact (idle.owned.run earlier).suspended_of_handsOut event_eq
  · intro earlier turn number thunk value event_eq
    rw [run_snoc]
    exact (idle.owned.run earlier).marked_of_published event_eq
  · intro earlier later turn number thunk value reply held event_eq
    rw [Pool.run_append] at event_eq
    have evaluated := (idle.owned.run earlier).evaluated_run later held
    rw [Pool.reply_eq_of_claimed event_eq,
      Store.claim_of_evaluated (Store.slot_eq_of_slot? evaluated)]

/-- Two threads that force one thunk. -/
def twoForcers : Pool where
  store := { slots := #[.suspended (.breakOff "stop")], digest := Digest.multiplicative }
  threads
    | 0 | 1 => some ⟨.running (force ⟨0⟩)⟩
    | _ => none

theorem twoForcers_idle : twoForcers.Idle where
  unclaimed := by
    rintro ⟨place⟩ slot held
    cases place with
    | zero =>
      cases held
      simp [twoForcers]
    | succ place => simp [twoForcers, Store.slot?] at held
  running number worker present := by
    simp only [twoForcers] at present
    split at present
    · cases present
      exact ⟨_, rfl⟩
    · cases present
      exact ⟨_, rfl⟩
    · contradiction

theorem twoForcers_evaluate_once :
    twoForcers.Idle ∧
    (∀ turns, (twoForcers.events turns).countP (Event.handsOut ⟨0⟩) ≤ 1) ∧
    (twoForcers.run [.step 1]).store.slot? ⟨0⟩ = some (.evaluating 1) ∧
    (∀ later turn number reply,
      (twoForcers.run ([.step 1, .step 1, .step 1] ++ later)).event? turn =
          some (.claimed number ⟨0⟩ reply) →
        reply = .ready (.fault (.brokenOff "stop"))) := by
  obtain ⟨-, once, owned, -, told⟩ :=
    evaluates_once_under_every_schedule twoForcers twoForcers_idle
  refine ⟨twoForcers_idle, fun turns => once turns ⟨0⟩, ?_, ?_⟩
  · exact (owned [] (.step 1) 1 ⟨0⟩ (.breakOff "stop") rfl).2.1
  · intro later turn number reply
    exact told [.step 1, .step 1, .step 1] later turn number ⟨0⟩ _ reply rfl

end ByNeed
