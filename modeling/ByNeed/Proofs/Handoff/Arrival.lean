import ByNeed.Proofs.Handoff.Deeds

/-!
# The next cell arrives

Once there is something to read for the last cell of a handoff, or nothing more will come, a few
steps of one thread finish the cell: of the thread that has claimed it, or of anybody who asks.
-/

namespace ByNeed

open Store List

variable {ρ : Type}
variable {more reader : Nat}

/-! ## Lone threads -/

namespace Thread

/-- A lone thread evaluates a thunk within so many steps. -/
def Arrives (self : Nat) (thunk : Thunk) (limit : Nat) (config : Thread ρ × Store) : Prop :=
  ∃ count ≤ limit, ∃ later, advance self count config = some later ∧
    ∃ value, later.2.slot? thunk = some (.evaluated value)

variable {self limit : Nat} {thunk : Thunk} {thread next : Thread ρ} {store after : Store}
variable {value : Value} {channel : Nat}

theorem Arrives.of_evaluated (evaluated : store.slot? thunk = some (.evaluated value)) :
    Arrives self thunk limit (thread, store) :=
  ⟨0, Nat.zero_le _, _, rfl, value, evaluated⟩

theorem Arrives.le (arrives : Arrives self thunk limit config) (le : limit ≤ more) :
    Arrives self thunk more config := by
  obtain ⟨count, count_le, evaluated⟩ := arrives
  exact ⟨count, Nat.le_trans count_le le, evaluated⟩

theorem Arrives.of_moved (moved : thread.step self store = (.moved next, after))
    (arrives : Arrives self thunk limit (next, after)) :
    Arrives self thunk (limit + 1) (thread, store) := by
  obtain ⟨count, count_le, later, advances, evaluated⟩ := arrives
  refine ⟨count + 1, Nat.succ_le_succ count_le, later, ?_, evaluated⟩
  rw [advance, moved]
  exact advances

theorem Owns.of_moved (owns : thread.Owns self store)
    (moved : thread.step self store = (.moved next, after)) : next.Owns self after :=
  owns.of_progress (progress_of_moved moved)

/-! ## What a thread that has claimed the list does next -/

section Claimed

variable {chain : List Link} {stack : Stack ρ}

theorem Arrives.of_performed {following : action.Reply → Code Thunk} {reply : action.Reply}
    (performed : action.perform store = (some reply, after))
    (owns : (driving (.act action following) chain stack).Owns self store)
    (arrives : (driving (following reply) chain stack).Owns self after →
      Arrives self thunk limit (.driving (following reply) chain stack, after)) :
    Arrives self thunk (limit + 1) (.driving (.act action following) chain stack, store) := by
  have moved : (driving (.act action following) chain stack).step self store =
      (.moved (.driving (following reply) chain stack), after) := by
    simp only [step, performed]
  exact .of_moved moved (arrives (owns.of_moved moved))

theorem arrives_settling (value : Value)
    (owns : (settling value (⟨thunk, none⟩ :: chain) stack).Owns self store) :
    Arrives self thunk 1 (.settling value (⟨thunk, none⟩ :: chain) stack, store) := by
  have marked := (owns.mem_iff thunk).mp mem_cons_self
  exact .of_moved rfl (.of_evaluated (slot?_setSlot_self marked _))

theorem arrives_made (evaluated : store.slot? holder = some (.evaluated value))
    (owns : (driving (.done holder) (⟨thunk, none⟩ :: chain) stack).Owns self store) :
    Arrives self thunk 2 (.driving (.done holder) (⟨thunk, none⟩ :: chain) stack, store) := by
  have moved : (driving (.done holder) (⟨thunk, none⟩ :: chain) stack).step self store =
      (.moved (.settling value (⟨thunk, none⟩ :: chain) stack), store) := by
    rw [(Asks.follow _ _ stack).step_eq,
      claim_of_evaluated (slot_eq_of_slot? evaluated)]
  exact .of_moved moved (arrives_settling value (owns.of_moved moved))

theorem arrives_making (value : Value)
    (owns : (driving (newValue value) (⟨thunk, none⟩ :: chain) stack).Owns self store) :
    Arrives self thunk 3 (.driving (newValue value) (⟨thunk, none⟩ :: chain) stack, store) :=
  .of_performed rfl owns (arrives_made (store.slot?_allocated _))

/-- Whoever has read makes the next cell or closes the list, and finishes the cell. -/
theorem arrives_cellFor (channel : Nat) (found : Channel.Reading)
    (owns : (driving (cellFor channel found) (⟨thunk, none⟩ :: chain) stack).Owns self store) :
    Arrives self thunk 4
      (.driving (cellFor channel found) (⟨thunk, none⟩ :: chain) stack, store) := by
  cases found <;> exact .of_performed rfl owns (arrives_making _)

/-- Whoever has claimed a cell finishes it once there is something to read. -/
theorem arrives_receiveStep (ready : (store.channel channel).receive? ≠ none)
    (owns : (driving (receiveStep channel) (⟨thunk, none⟩ :: chain) stack).Owns self store) :
    Arrives self thunk 5
      (.driving (receiveStep channel) (⟨thunk, none⟩ :: chain) stack, store) := by
  obtain ⟨⟨reading, state⟩, received⟩ := Option.ne_none_iff_exists'.mp ready
  have performed : (Action.receive channel).perform store =
      (some reading, store.setChannel channel state) := by
    simp only [Action.perform, received]
  exact .of_performed performed owns (arrives_cellFor channel reading)

end Claimed

/-- Whoever asks for a cell finishes it once there is something to read. -/
theorem arrives_force (suspended : store.slot? thunk = some (.suspended (.receive channel)))
    (ready : (store.channel channel).receive? ≠ none)
    (owns : (running (force thunk)).Owns self store) :
    Arrives self thunk 6 (.running (force thunk), store) := by
  have moved : (running (force thunk)).step self store =
      (.moved (.driving (receiveStep channel) [⟨thunk, none⟩]
        (.base fun value => .done value.purely)), store.setSlot thunk (.evaluating self)) := by
    simp only [force, step, Stack.evaluate,
      claim_of_suspended (slot_eq_of_slot? suspended)]
    rfl
  exact .of_moved moved (arrives_receiveStep ready (owns.of_moved moved))

theorem Delivering.arrives (delivering : thread.Delivering store thunk value)
    (owns : thread.Owns self store) : Arrives self thunk 4 (thread, store) := by
  cases delivering with
  | closing channel chain stack => exact .of_performed rfl owns (arrives_making value)
  | making chain stack => exact (arrives_making value owns).le (by decide)
  | made chain stack evaluated => exact (arrives_made evaluated owns).le (by decide)
  | settling chain stack => exact (arrives_settling value owns).le (by decide)

end Thread

/-! ## In company -/

namespace Service

variable {service : Service} {realm : Realm} {number limit : Nat} {thunk : Thunk}
variable {request : Request} {thread : Thread request.Result}

/-- So many shifts at most are enough to evaluate a thunk. -/
def Finishes (service : Service) (thunk : Thunk) (limit : Nat) : Prop :=
  ∃ shifts, shifts.length ≤ limit ∧
    ∃ value, (service.shifts shifts).store.slot? thunk = some (.evaluated value)

theorem Finishes.le (finishes : service.Finishes thunk limit) (le : limit ≤ more) :
    service.Finishes thunk more := by
  obtain ⟨shifts, length_le, evaluated⟩ := finishes
  exact ⟨shifts, Nat.le_trans length_le le, evaluated⟩

theorem Finishes.of_shift (shift : Shift) (finishes : (service.shift shift).Finishes thunk limit) :
    service.Finishes thunk (limit + 1) := by
  obtain ⟨shifts, length_le, evaluated⟩ := finishes
  exact ⟨shift :: shifts, Nat.succ_le_succ length_le, evaluated⟩

/-- In company a thread can take the steps it could take alone. -/
theorem store_steps (count : Nat) (present : service.tasks number = some ⟨request, thread⟩)
    (advances : Thread.advance number count (thread, service.store) = some later) :
    (service.shifts (Shift.steps number count)).store = later.2 := by
  induction count generalizing service thread with
  | zero =>
    cases advances
    rfl
  | succ count ih =>
    rw [Thread.advance] at advances
    split at advances
    · rename_i next after moved
      have shift_eq : service.shift (.make (.step number)) =
          { service with store := after }.setTask number (some ⟨request, next⟩) := by
        have shift_eq : service.shift (.make (.step number)) = service.afterStep number
            ⟨request, thread⟩ (thread.step number service.store) := by
          simp only [shift, shiftIf, Move.isHonest, if_true, move, present]
        rw [shift_eq, moved]
        rfl
      have steps_eq : service.shifts (Shift.steps number (count + 1)) =
          (service.shift (.make (.step number))).shifts (Shift.steps number count) := rfl
      rw [steps_eq, shift_eq]
      exact ih (tasks_setTask_self _ _ _) advances
    · cases advances

theorem finishes_of_arrives (present : service.tasks number = some ⟨request, thread⟩)
    (arrives : Thread.Arrives number thunk limit (thread, service.store)) :
    service.Finishes thunk limit := by
  obtain ⟨count, count_le, later, advances, value, evaluated⟩ := arrives
  refine ⟨Shift.steps number count, by simpa [Shift.steps] using count_le, value, ?_⟩
  rw [store_steps count present advances, evaluated]

theorem Delivers.finishes (delivers : service.Delivers thunk value)
    (soundIn : service.SoundIn realm) : service.Finishes thunk 4 := by
  rcases delivers with held | ⟨number, ⟨request, thread⟩, present, delivering⟩
  · exact ⟨[], Nat.zero_le _, value, held⟩
  · exact finishes_of_arrives present (delivering.arrives (soundIn.owns present))

/-- Anybody who asks for the list finishes its next cell once there is something to read. -/
theorem finishes_of_suspended {channel : Nat} (soundIn : service.SoundIn realm)
    (suspended : service.store.slot? thunk = some (.suspended (.receive channel)))
    (ready : (service.store.channel channel).receive? ≠ none) (free : service.tasks reader = none) :
    service.Finishes thunk 7 := by
  have sees : service.store.canSee thunk = true :=
    canSee_iff.mpr ⟨_, suspended, rfl⟩
  have shift_eq : service.shift (.make (.start reader (.force thunk))) =
      service.setTask reader (some ⟨.force thunk, .running (force thunk)⟩) := by
    simp only [shift, shiftIf, Move.isHonest, Request.duty?, if_true, move, free,
      Request.thunks, all_cons, sees, all_nil, Option.isNone_none, Bool.and_true]
    rfl
  obtain ⟨later, -, soundThen⟩ := soundIn.shift (.make (.start reader (.force thunk)))
  refine .of_shift (.make (.start reader (.force thunk))) ?_
  rw [shift_eq] at soundThen ⊢
  have present : (service.setTask reader (some ⟨.force thunk, .running (force thunk)⟩)).tasks
      reader = some ⟨.force thunk, .running (force thunk)⟩ := tasks_setTask_self _ _ _
  exact finishes_of_arrives present (Thread.arrives_force suspended ready (soundThen.owns present))

end Service

namespace Handoff.Tape

variable {tape : Tape} {exchange : Exchange} {realm : Realm}

/-- There is something to read while not every message was read, and at the end. -/
theorem Books.receive?_ne_none {channel : Channel} (books : tape.Books publishers channel)
    (due : tape.taken < tape.log.length ∨ publishers = 0) : channel.receive? ≠ none := by
  rw [Ne, channel.receive?_eq_none_iff, books.unread_eq, books.publishers_eq, drop_eq_nil_iff]
  rintro ⟨allTaken, somebody⟩
  exact due.elim (Nat.not_lt_of_le allTaken) somebody

/-- The last cell is finished within a few shifts once there is something to read for it. -/
theorem Valid.finishes (valid : tape.Valid exchange) (soundIn : exchange.service.SoundIn realm)
    (due : tape.items.length < tape.log.length ∨ exchange.publishers = ∅)
    (free : exchange.service.tasks reader = none) : exchange.service.Finishes tape.last 7 := by
  have lastCell := valid.kept.lastCell
  have ready : tape.token.pending = [] →
      (exchange.service.store.channel exchange.channel).receive? ≠ none := by
    intro none_pending
    have length_eq := congrArg List.length valid.kept.books.read_eq
    rw [none_pending, append_nil, length_map, length_take_of_le valid.kept.books.taken_le]
      at length_eq
    rw [← Finset.card_eq_zero] at due
    exact valid.kept.books.receive?_ne_none (length_eq ▸ due)
  cases token_eq : tape.token with
  | unmade => exact absurd token_eq valid.made
  | idle =>
    rw [token_eq] at lastCell ready
    exact Service.finishes_of_suspended soundIn lastCell (ready rfl) free
  | reading number =>
    rw [token_eq] at lastCell ready
    obtain ⟨task, present, chain, stack, -, thread_eq⟩ := lastCell
    have owns := thread_eq ▸ soundIn.owns present
    have arrives := thread_eq ▸ Thread.arrives_receiveStep (ready rfl) owns
    exact (Service.finishes_of_arrives present arrives).le (by decide)
  | read number found =>
    rw [token_eq] at lastCell
    obtain ⟨task, present, chain, stack, -, thread_eq⟩ := lastCell
    have owns := thread_eq ▸ soundIn.owns present
    have arrives := thread_eq ▸ Thread.arrives_cellFor exchange.channel found owns
    exact (Service.finishes_of_arrives present arrives).le (by decide)
  | _ =>
    rw [token_eq] at lastCell
    exact (Service.Delivers.finishes lastCell soundIn).le (by decide)

end Handoff.Tape
end ByNeed
