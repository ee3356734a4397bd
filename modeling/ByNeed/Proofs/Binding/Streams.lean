import ByNeed.Proofs.Binding.Passing
import ByNeed.Proofs.Evaluator.Agreement

/-!
# Lists behind channels

A list that is read from a channel is a proper list once all its elements have been sent: they are
read one after the other, and what has been read is memoised.  So it can be spread like any other.
-/

namespace ByNeed
namespace Store

variable {self channel : Nat} {store between after later : Store} {list thunk tail head : Thunk}
variable {elements rest spreads : List Thunk} {value : Value}

/-- A list is about to read elements from a channel, and nobody sends any more. -/
structure Awaits (store : Store) (channel : Nat) (list : Thunk) (elements : List Thunk) :
    Prop where
  suspended : store.slot? list = some (.suspended (.receive channel))
  unread : (store.channel channel).unread = elements.map .item
  publishers : (store.channel channel).publishers = 0

/-- A list has such elements.  Some are memoised, and the others can be read from a channel. -/
def Streams (store : Store) (channel : Nat) : Thunk → List Thunk → Prop
  | list, [] =>
    store.slot? list = some (.evaluated (.list .empty)) ∨ store.Awaits channel list []
  | list, head :: rest =>
    (∃ tail, store.slot? list = some (.evaluated (.list (.cons head tail))) ∧
      store.Streams channel tail rest) ∨
    store.Awaits channel list (head :: rest)

/-! ## Reading -/

theorem perform_receive {claim : Slot} {reading : Channel.Reading} {state : Channel}
    (receives : (store.channel channel).receive? = some (reading, state)) :
    (Action.receive channel).perform (store.setSlot list claim) =
      (some reading, (store.setSlot list claim).setChannel channel state) := by
  rw [Action.perform, show (store.setSlot list claim).channel channel = store.channel channel
    from rfl, receives]

namespace Awaits

theorem streams (awaits : store.Awaits channel list elements) :
    store.Streams channel list elements := by
  cases elements with
  | _ => exact .inr awaits

theorem of_gains (awaits : store.Awaits channel list elements) (gains : store.Gains later) :
    later.Awaits channel list elements where
  suspended := gains.grows.keeps _ _ awaits.suspended
  unread := by
    rw [Store.channel, gains.channels_eq]
    exact awaits.unread
  publishers := by
    rw [Store.channel, gains.channels_eq]
    exact awaits.publishers

theorem channel_lt (awaits : store.Awaits channel list elements) :
    channel < store.channels.size := by
  by_contra beyond
  have publishers := awaits.publishers
  simp [Store.channel, Array.getD, beyond] at publishers

/-- The list ends when all has been read. -/
theorem exists_ends (awaits : store.Awaits channel list []) (self : Nat) :
    ∃ after, list.Evaluates self store (.list .empty) after := by
  have receives : ∃ state, (store.channel channel).receive? = some (.ended, state) := by
    rw [Channel.receive?, awaits.unread]
    exact ⟨_, if_pos awaits.publishers⟩
  obtain ⟨state, receives⟩ := receives
  exact ⟨_, .computed (slot_eq_of_slot? awaits.suspended)
    (.act (perform_receive receives) (.act rfl (.act rfl (.done _ _))))
    (.memoized (slot_allocate_self _ _))⟩

/-- One element is read, and the tail awaits the others. -/
theorem exists_reads (awaits : store.Awaits channel list (head :: rest)) (self : Nat) :
    ∃ tail after, list.Evaluates self store (.list (.cons head tail)) after ∧
      after.Awaits channel tail rest := by
  have receives : (store.channel channel).receive? =
      some (.item head, { store.channel channel with unread := rest.map .item }) := by
    rw [Channel.receive?, awaits.unread]
    rfl
  let claimed := (store.setSlot list (.evaluating self)).setChannel channel
    { store.channel channel with unread := rest.map .item }
  let made := claimed.allocate (.suspended (.receive channel))
  refine ⟨made.1, _, .computed (slot_eq_of_slot? awaits.suspended)
    (.act (perform_receive receives) (.act rfl (.act rfl (.done _ _))))
    (.memoized (slot_allocate_self _ _)), ?_⟩
  have channel_eq : claimed.channel channel =
      { store.channel channel with unread := rest.map .item } :=
    channel_setChannel_self awaits.channel_lt _
  have size_eq : claimed.slots.size = store.slots.size := Array.size_setIfInBounds
  have new : made.1 ≠ list := by
    intro same
    have held : store.slots[claimed.slots.size]? = _ := same ▸ awaits.suspended
    rw [size_eq, Array.getElem?_size] at held
    cases held
  refine ⟨?_, congrArg Channel.unread channel_eq,
    (congrArg Channel.publishers channel_eq).trans awaits.publishers⟩
  rw [publish, slot?_setSlot_of_ne _ new]
  refine (made.2.grows_allocate _ (by simp)).keeps made.1 _ ?_
  exact (slot?_allocate _ _ _).trans (if_pos rfl)

end Awaits

/-! ## Evaluating parts of the list -/

theorem within_singleton (within : store.Within [list] thunk) :
    thunk = list ∨ ∃ head tail, store.slot? list = some (.evaluated (.list (.cons head tail))) ∧
      store.Within [tail] thunk := by
  induction within with
  | spread mem => exact .inl (List.mem_singleton.mp mem)
  | tail _ held ih =>
    right
    rcases ih with rfl | ⟨head, tail, first, within⟩
    · exact ⟨_, _, held, .spread List.mem_cons_self⟩
    · exact ⟨head, tail, first, within.tail held⟩

namespace Streams

/-- The tail of the list has the other elements. -/
theorem of_tail (streams : store.Streams channel list (first :: rest))
    (held : store.slot? list = some (.evaluated (.list (.cons head tail)))) :
    first = head ∧ store.Streams channel tail rest := by
  rcases streams with ⟨found, known, further⟩ | awaits
  · cases known.symm.trans held
    exact ⟨rfl, further⟩
  · cases awaits.suspended.symm.trans held

theorem of_gains (streams : store.Streams channel list elements) (gains : store.Gains later) :
    later.Streams channel list elements := by
  induction elements generalizing list with
  | nil => exact streams.imp (gains.grows.keeps _ _) (·.of_gains gains)
  | cons head rest ih =>
    rcases streams with ⟨tail, held, further⟩ | awaits
    · exact .inl ⟨tail, gains.grows.keeps _ _ held, ih further⟩
    · exact .inr (awaits.of_gains gains)

/-- Evaluating the list or one of its tails leaves it its elements. -/
theorem of_evaluates (streams : store.Streams channel list elements)
    (within : store.Within [list] thunk) (evaluates : thunk.Evaluates self store value after) :
    after.Streams channel list elements := by
  have remembers : store.Remembers after :=
    (show store.Unrolls self [list] after from .of_evaluates within evaluates).remembers
  induction elements generalizing list with
  | nil =>
    rcases within_singleton within with rfl | ⟨head, tail, held, -⟩
    · rcases streams with held | awaits
      · exact .inl (remembers _ _ held)
      · obtain ⟨final, ends⟩ := awaits.exists_ends self
        obtain ⟨rfl, rfl⟩ := evaluates.unique ends
        exact .inl (ends.slot?_eq (by simp) (by simp))
    · rcases streams with known | awaits
      · cases known.symm.trans held
      · cases awaits.suspended.symm.trans held
  | cons first rest ih =>
    rcases within_singleton within with rfl | ⟨head, tail, held, further⟩
    · rcases streams with ⟨tail, held, tailStreams⟩ | awaits
      · obtain ⟨-, rfl⟩ := evaluates.unique (.of_slot? held)
        exact .inl ⟨tail, held, tailStreams⟩
      · obtain ⟨tail, final, reads, tailAwaits⟩ := awaits.exists_reads self
        obtain ⟨rfl, rfl⟩ := evaluates.unique reads
        exact .inl ⟨tail, reads.slot?_eq (by simp) (by simp), tailAwaits.streams⟩
    · obtain ⟨rfl, tailStreams⟩ := streams.of_tail held
      exact .inl ⟨tail, remembers _ _ held, ih tailStreams further⟩

end Streams

/-! ## Spreading the list -/

/-- Of all that is spread, only one list is still read from a channel. -/
structure Feeds (store : Store) (spreads : List Thunk) (channel : Nat) (list : Thunk)
    (elements : List Thunk) : Prop where
  within : store.Within spreads list
  streams : store.Streams channel list elements
  others : ∀ thunk, store.Within spreads thunk →
    (∃ value, store.slot? thunk = some (.evaluated value)) ∨ store.Within [list] thunk

/-- A list that awaits its elements is spread along with dictionaries. -/
theorem Awaits.feeds (awaits : store.Awaits channel list elements) (mem : list ∈ spreads)
    (others : ∀ thunk ∈ spreads, thunk = list ∨
      ∃ dictionary, store.slot? thunk = some (.evaluated (.dictionary dictionary))) :
    store.Feeds spreads channel list elements where
  within := .spread mem
  streams := awaits.streams
  others thunk within := by
    have known : thunk = list ∨
        ∃ dictionary, store.slot? thunk = some (.evaluated (.dictionary dictionary)) := by
      induction within with
      | spread mem => exact others _ mem
      | tail _ held ih =>
        rcases ih with rfl | ⟨dictionary, known⟩
        · cases awaits.suspended.symm.trans held
        · cases known.symm.trans held
    rcases known with rfl | ⟨dictionary, held⟩
    · exact .inr (.spread List.mem_cons_self)
    · exact .inl ⟨_, held⟩

namespace Feeds

variable (feeds : store.Feeds spreads channel list elements)

include feeds

/-- No more is spread later than before, but for more cells of the list. -/
theorem within_of_remembers (remembers : store.Remembers later)
    (within : later.Within spreads thunk) :
    store.Within spreads thunk ∨ later.Within [list] thunk := by
  induction within with
  | spread mem => exact .inl (.spread mem)
  | @tail cell head tail _ held ih =>
    rcases ih with before | within
    · rcases feeds.others cell before with ⟨value, known⟩ | within
      · rw [remembers _ _ known] at held
        cases held
        exact .inl (before.tail known)
      · exact .inr ((within.mono remembers).tail held)
    · exact .inr (within.tail held)

theorem of_remembers (remembers : store.Remembers later)
    (streams : later.Streams channel list elements) :
    later.Feeds spreads channel list elements where
  within := feeds.within.mono remembers
  streams := streams
  others thunk within := by
    rcases feeds.within_of_remembers remembers within with before | within
    · rcases feeds.others thunk before with ⟨value, known⟩ | within
      · exact .inl ⟨value, remembers _ _ known⟩
      · exact .inr (within.mono remembers)
    · exact .inr within

theorem of_evaluates (within : store.Within spreads thunk)
    (evaluates : thunk.Evaluates self store value after) :
    after.Feeds spreads channel list elements := by
  refine feeds.of_remembers (Unrolls.of_evaluates within evaluates).remembers ?_
  rcases feeds.others thunk within with ⟨known, held⟩ | within
  · obtain ⟨-, rfl⟩ := evaluates.unique (.of_slot? held)
    exact feeds.streams
  · exact feeds.streams.of_evaluates within evaluates

theorem of_unrolls (unrolls : store.Unrolls self spreads later) :
    later.Feeds spreads channel list elements := by
  induction unrolls with
  | refl => exact feeds
  | evaluate _ within evaluates ih => exact ih.of_evaluates within evaluates
  | gain _ gains ih =>
    exact ih.of_remembers (fun _ _ held => gains.grows.keeps _ _ held)
      (ih.streams.of_gains gains)

omit feeds in
theorem of_tail (feeds : store.Feeds spreads channel list (first :: rest))
    (held : store.slot? list = some (.evaluated (.list (.cons head tail)))) :
    store.Feeds spreads channel tail rest where
  within := feeds.within.tail held
  streams := (feeds.streams.of_tail held).2
  others thunk within := by
    rcases feeds.others thunk within with known | within
    · exact .inl known
    · rcases within_singleton within with rfl | ⟨found, further, known, within⟩
      · exact .inl ⟨_, held⟩
      · cases known.symm.trans held
        exact .inr within

/-- A list whose elements have all been sent is a proper list. -/
theorem lists (self : Nat) : list.Lists self spreads elements.length store := by
  induction elements generalizing list store with
  | nil =>
    intro later unrolls
    rcases (feeds.of_unrolls unrolls).streams with held | awaits
    · exact ⟨later, .of_slot? held⟩
    · exact awaits.exists_ends self
  | cons head rest ih =>
    intro later unrolls
    have feedsLater := feeds.of_unrolls unrolls
    rcases feedsLater.streams with ⟨tail, held, -⟩ | awaits
    · exact ⟨head, tail, later, .of_slot? held, ih (feedsLater.of_tail held)⟩
    · obtain ⟨tail, after, reads, -⟩ := awaits.exists_reads self
      have held := reads.slot?_eq (by simp) (by simp)
      exact ⟨head, tail, after, reads,
        ih ((feedsLater.of_evaluates feedsLater.within reads).of_tail held)⟩

end Feeds
end Store
end ByNeed
