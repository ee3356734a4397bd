import ByNeed.Proofs.Machine.Slots

/-!
# What actions do to the store

An action makes a thunk, changes a channel, a scheduler or a recursive group, launches a daemon, or
does nothing but hand out identities, take notes and count backlogs.
-/

namespace ByNeed

open List

/-- Reading a channel leaves unread what was unread. -/
theorem Channel.mem_of_receive? {channel state : Channel}
    (received : channel.receive? = some (reading, state)) (mem : message ∈ state.unread) :
    message ∈ channel.unread := by
  unfold receive? at received
  split at received
  · rename_i unread
    cases received
    exact unread ▸ mem_cons_of_mem _ mem
  · split at received
    · cases received
      exact mem
    · cases received

namespace Store

theorem channel_setChannel (store : Store) (channel other : Nat) (state : Channel) :
    (store.setChannel channel state).channel other = state ∨
      (store.setChannel channel state).channel other = store.channel other := by
  simp only [Store.channel, setChannel, Array.getD_eq_getD_getElem?, Array.getElem?_setIfInBounds]
  split
  · split
    · exact .inl rfl
    · rename_i same outOfBounds
      right
      rw [← same, Array.getElem?_eq_none (by omega)]
  · exact .inr rfl

theorem channel_setChannel_self {store : Store} {channel : Nat}
    (held : channel < store.channels.size) (state : Channel) :
    (store.setChannel channel state).channel channel = state := by
  simp [Store.channel, setChannel, held]

theorem scheduler_setScheduler (store : Store) (scheduler other : Nat) (state : Scheduler) :
    (store.setScheduler scheduler state).scheduler other = state ∨
      (store.setScheduler scheduler state).scheduler other = store.scheduler other := by
  simp only [Store.scheduler, setScheduler, Array.getD_eq_getD_getElem?,
    Array.getElem?_setIfInBounds]
  split
  · split
    · exact .inl rfl
    · rename_i same outOfBounds
      right
      rw [← same, Array.getElem?_eq_none (by omega)]
  · exact .inr rfl

theorem define_eq (store : Store) (group index : Nat) (definition : Thunk) :
    ∃ groups, (store.define group index definition).2 = { store with groups } ∧
      ∀ other place thunk, ({ store with groups } : Store).cell? other place = some thunk →
        store.cell? other place = some thunk ∨ thunk = definition := by
  simp only [define]
  split
  · exact ⟨store.groups, rfl, fun _ _ _ found => .inl found⟩
  · exact ⟨store.groups, rfl, fun _ _ _ found => .inl found⟩
  · refine ⟨_, rfl, fun other place thunk found => ?_⟩
    simp only [cell?, Store.group, Array.getD_eq_getD_getElem?,
      Array.getElem?_setIfInBounds] at found ⊢
    grind

end Store

namespace Action

/-- The slot of the thunk that an action makes. -/
def slot? : Action → Option Slot
  | .hold value => some (.evaluated value)
  | .suspend computation => some (.suspended computation)
  | _ => none

/-- The channel that an action changes. -/
def channel? : Action → Option Nat
  | .send channel _ | .receive channel | .abandon channel | .retain channel | .release channel =>
    some channel
  | _ => none

/-- What an action does to the store. -/
inductive Effect (action : Action) (store : Store) : Store → Prop
  | slot {slot : Slot} (made : action.slot? = some slot) :
      Effect action store (store.allocate slot).2
  | aside {nextIdentity : Nat} {log : Array String} {backlogs : Array Nat}
      (le : store.nextIdentity ≤ nextIdentity) :
      Effect action store { store with nextIdentity, log, backlogs }
  /-- A cell that is defined was so before, or is defined now. -/
  | groups {groups : Array (Array (Option Thunk))}
      (cells : ∀ group index thunk, ({ store with groups } : Store).cell? group index = some thunk →
        store.cell? group index = some thunk ∨ ∃ group index, action = .define group index thunk) :
      Effect action store { store with groups }
  | newChannel {capacity : Nat} (isNew : action = .newChannel capacity) :
      Effect action store (store.newChannel capacity).2
  /-- What is unread was so before, or is sent now. -/
  | channel {channel : Nat} {state : Channel} (changes : action.channel? = some channel)
      (unread : ∀ message ∈ state.unread, message ∈ (store.channel channel).unread ∨
        action = .send channel message) :
      Effect action store (store.setChannel channel state)
  /-- What is queued was so before, or is submitted now. -/
  | scheduler {scheduler nextDaemon : Nat} {state : Scheduler}
      (queue : ∀ queue, state.queue = some queue → ∃ former,
        (store.scheduler scheduler).queue = some former ∧ ∀ daemon ∈ queue,
          daemon ∈ former ∨ action = .submit scheduler daemon.duty) :
      Effect action store { store.setScheduler scheduler state with nextDaemon }
  | launch {scheduler : Nat} {daemon : Daemon} (launches : action = .launch scheduler daemon) :
      Effect action store { store with launched := store.launched ++ [(scheduler, daemon)] }

theorem effect_perform (action : Action) (store : Store) :
    action.Effect store (action.perform store).2 := by
  -- The queue is left alone.
  have same : ∀ {scheduler queue : _}, (store.scheduler scheduler).queue = some queue →
      ∃ former, (store.scheduler scheduler).queue = some former ∧ ∀ daemon ∈ queue,
        daemon ∈ former ∨ action = .submit scheduler daemon.duty :=
    fun waiting => ⟨_, waiting, fun _ => .inl⟩
  cases action with
  | hold | suspend => exact .slot rfl
  | identity => exact .aside (Nat.le_succ _)
  | newGroup size =>
    refine .groups fun group index thunk defined => .inl ?_
    simp only [Store.cell?, Store.group, Array.getD_eq_getD_getElem?, Array.getElem?_push]
      at defined ⊢
    split at defined
    · simp only [Option.getD_some, Array.getElem?_replicate] at defined
      split at defined <;> simp at defined
    · exact defined
  | define group index definition =>
    obtain ⟨groups, isDefined, cells⟩ := store.define_eq group index definition
    rw [show ((define group index definition).perform store).2 = { store with groups } from
      isDefined]
    exact .groups fun other place thunk found =>
      (cells other place thunk found).imp_right fun isThunk => ⟨group, index, by rw [isThunk]⟩
  | newChannel capacity => exact .newChannel rfl
  | send channel message =>
    simp only [perform]
    split
    · exact .aside (Nat.le_refl _)
    · refine .channel rfl fun other unread => ?_
      unfold Channel.send at unread
      split at unread
      · exact (mem_append.mp unread).imp_right fun sent => by rw [mem_singleton.mp sent]
      · exact .inl unread
  | receive channel =>
    simp only [perform]
    split
    · exact .aside (Nat.le_refl _)
    · rename_i received
      exact .channel rfl fun message unread => .inl (Channel.mem_of_receive? received unread)
  | abandon channel | retain channel | release channel => exact .channel rfl fun _ => .inl
  | submit scheduler duty =>
    refine .scheduler fun queue waiting => ?_
    split at waiting
    · rename_i former formerly
      cases waiting
      refine ⟨former, formerly, fun daemon mem => ?_⟩
      exact (mem_append.mp mem).imp_right fun added => by rw [mem_singleton.mp added]
    · exact same waiting
  | takeQueue scheduler => exact .scheduler fun queue taken => by cases taken
  | launch scheduler daemon => exact .launch rfl
  | countStarted scheduler | countRun scheduler => exact .scheduler fun _ => same
  | countEnded scheduler brokeOff =>
    refine .scheduler fun queue waiting => same ?_
    simpa [Scheduler.countEnded, apply_ite Scheduler.queue] using waiting
  | _ => exact .aside (Nat.le_refl _)

namespace Effect

variable {action : Action} {store after : Store}

section

variable (effect : action.Effect store after)

include effect

/-- A thunk is made that nobody has claimed, or the slots are left alone. -/
theorem grows : store.Grows after := by
  cases effect with
  | slot made =>
    refine store.grows_allocate _ ?_
    cases action <;> cases made <;> simp
  | _ => exact .of_slots_eq rfl

theorem slot?_cases {slot : Slot} (held : after.slot? thunk = some slot) :
    store.slot? thunk = some slot ∨ action.slot? = some slot := by
  cases effect with
  | slot made =>
    rw [Store.slot?_allocate] at held
    split at held
    · exact .inr (held ▸ made)
    · exact .inl held
  | _ => exact .inl held

theorem digest_eq : after.digest = store.digest := by
  cases effect <;> rfl

theorem prelude_eq : after.prelude = store.prelude := by
  cases effect <;> rfl

theorem nextIdentity_le : store.nextIdentity ≤ after.nextIdentity := by
  cases effect with
  | aside le => exact le
  | _ => exact Nat.le_refl _

theorem channels_size_le : store.channels.size ≤ after.channels.size := by
  cases effect with
  | newChannel => simp [Store.newChannel]
  | channel => simp [Store.setChannel]
  | _ => exact Nat.le_refl _

theorem cell?_cases (defined : after.cell? group index = some thunk) :
    store.cell? group index = some thunk ∨ ∃ group index, action = .define group index thunk := by
  cases effect with
  | groups cells => exact cells group index thunk defined
  | _ => exact .inl defined

theorem queue_cases {scheduler : Nat} (waiting : (after.scheduler scheduler).queue = some queue) :
    ∃ former, (store.scheduler scheduler).queue = some former ∧
      ∀ daemon ∈ queue, daemon ∈ former ∨ action = .submit scheduler daemon.duty := by
  cases effect with
  | @scheduler changed _ state queues =>
    by_cases same : changed = scheduler
    · subst same
      rcases store.scheduler_setScheduler changed changed state with set | kept
      · exact queues queue (set ▸ waiting)
      · exact ⟨queue, kept ▸ waiting, fun _ => .inl⟩
    · refine ⟨queue, ?_, fun _ => .inl⟩
      simpa [Store.scheduler, Store.setScheduler, same] using waiting
  | _ => exact ⟨queue, waiting, fun _ => .inl⟩

theorem launched_cases (launched : entry ∈ after.launched) :
    entry ∈ store.launched ∨ action = .launch entry.1 entry.2 := by
  cases effect with
  | launch launches =>
    refine (mem_append.mp launched).imp_right fun latest => ?_
    rw [launches, mem_singleton.mp latest]
  | _ => exact .inl launched

theorem mem_unread {channel : Nat} (unread : message ∈ (after.channel channel).unread) :
    message ∈ (store.channel channel).unread ∨ ∃ other, action = .send other message := by
  cases effect with
  | newChannel =>
    simp only [Store.newChannel, Store.channel, Array.getD_eq_getD_getElem?, Array.getElem?_push]
      at unread
    split at unread
    · cases unread
    · exact .inl (by rwa [Store.channel, Array.getD_eq_getD_getElem?])
  | @channel changed state changes sent =>
    by_cases same : changed = channel
    · subst same
      rcases store.channel_setChannel changed changed state with set | kept
      · exact (sent message (set ▸ unread)).imp_right fun sends => ⟨changed, sends⟩
      · exact .inl (kept ▸ unread)
    · exact .inl (by simpa [Store.channel, Store.setChannel, same] using unread)
  | _ => exact .inl unread

end

end Effect

theorem grows_perform (action : Action) (store : Store) : store.Grows (action.perform store).2 :=
  (action.effect_perform store).grows

theorem grows_of_perform {action : Action} {reply : Option action.Reply}
    (performed : action.perform store = (reply, left)) : store.Grows left := by
  have grows := action.grows_perform store
  rwa [performed] at grows

theorem nextIdentity_le_of_perform {action : Action} {reply : Option action.Reply}
    (performed : action.perform store = (reply, left)) :
    store.nextIdentity ≤ left.nextIdentity := by
  have le := (action.effect_perform store).nextIdentity_le
  rwa [performed] at le

end Action
end ByNeed
