import ByNeed.Proofs.Calls.Bodies

/-!
# Steps that do not disturb a channel

A store is undisturbed at a channel if the channel, its launched daemons and the suspended lists
behind it are as they were.  A step of a thread whose computations avoid the channel is a step of
its own code, or does not disturb the channel, or claims the list behind it.
-/

namespace ByNeed

open Store

variable {ρ : Type} {channel : Nat} {store after : Store}

/-! ## Code that leaves a channel alone -/

/-- An action neither uses a channel nor passes it on. -/
abbrev Action.Avoids (channel : Nat) (action : Action) : Prop :=
  action.Respects (Regime.avoiding channel).mayUse

/-- Code leaves a channel alone. -/
abbrev Code.Avoids (channel : Nat) (code : Code ρ) : Prop :=
  code.Keeps (.avoiding channel)

theorem newValue_avoids (value : Value) : (newValue value).Avoids channel :=
  newValue_keeps value.fits_everything

/-- A computation avoids each channel whose list it is not. -/
theorem Suspension.resume_avoids {computation : Suspension}
    (other : computation ≠ .receive channel) : computation.resume.Avoids channel := by
  refine Suspension.Suits.resume computation.suits_everything ?_
    fun _ => (Option.some_ne_none channel).symm
  cases computation with
  | receive made => exact fun same => other (congrArg Suspension.receive (Option.some.inj same))
  | _ => trivial

/-- A request avoids all channels but that of the duty it brings. -/
theorem Request.code_avoids {request : Request}
    (other : ∀ duty, request.duty? = some duty → duty.channel? ≠ some channel) :
    request.code.Avoids channel := by
  have obeys : request.code.Obeys (.avoiding channel) _ :=
    Request.Fits.code request.fits_everything (Option.some_ne_none channel).symm other
  exact obeys.weaken fun _ _ => trivial

/-! ## Stores -/

namespace Store

variable {other : Nat}

/-- The daemons of a channel that are launched. -/
def launchedOn (store : Store) (channel : Nat) : List (Nat × Daemon) :=
  store.launched.filter fun entry => entry.2.duty.channel? = some channel

/-- No daemon that waits for the start of a scheduler publishes on a channel. -/
def QueuesAvoid (store : Store) (channel : Nat) : Prop :=
  ∀ scheduler queue, (store.scheduler scheduler).queue = some queue →
    ∀ daemon ∈ queue, daemon.duty.channel? ≠ some channel

/-- Channels and started schedulers stay, and nothing new is queued for a channel. -/
structure Persists (channel : Nat) (store after : Store) : Prop where
  size_le : store.channels.size ≤ after.channels.size
  queues : store.QueuesAvoid channel → after.QueuesAvoid channel
  started : ∀ scheduler, (store.scheduler scheduler).isStarted = true →
    (after.scheduler scheduler).isStarted = true

/-- The lists behind a channel are those that were there. -/
structure Upholds (channel : Nat) (store after : Store) : Prop
    extends store.Persists channel after where
  readers : ∀ thunk, after.slot? thunk = some (.suspended (.receive channel)) ↔
    store.slot? thunk = some (.suspended (.receive channel))

/-- Nothing is done to a channel, and no daemon of it is launched. -/
structure Undisturbed (channel : Nat) (store after : Store) : Prop
    extends store.Upholds channel after where
  channel_eq : after.channel channel = store.channel channel
  launched_eq : after.launchedOn channel = store.launchedOn channel

theorem Undisturbed.refl (channel : Nat) (store : Store) : store.Undisturbed channel store where
  channel_eq := rfl
  size_le := Nat.le_refl _
  launched_eq := rfl
  queues avoid := avoid
  started _ started := started
  readers _ := Iff.rfl

theorem undisturbed_setSlot {former slot : Slot} (held : store.slot? thunk = some former)
    (formerOther : former ≠ .suspended (.receive channel))
    (other : slot ≠ .suspended (.receive channel)) :
    store.Undisturbed channel (store.setSlot thunk slot) where
  channel_eq := rfl
  size_le := Nat.le_refl _
  launched_eq := rfl
  queues avoid := avoid
  started _ started := started
  readers found := by
    by_cases same : found = thunk
    · subst found
      rw [slot?_setSlot_self held, held, Option.some.injEq, Option.some.injEq]
      exact iff_of_false other formerOther
    · rw [slot?_setSlot_of_ne store same]

theorem channel_setChannel_of_ne (store : Store) (ne : other ≠ channel) (state : Channel) :
    (store.setChannel other state).channel channel = store.channel channel := by
  simp [Store.channel, setChannel, Array.getElem?_setIfInBounds_ne ne]

theorem channel_newChannel
    (known : channel < store.channels.size ∨ store.channels.size + 1 ≤ channel) (bound : Nat) :
    (store.newChannel bound).2.channel channel = store.channel channel := by
  have ne : channel ≠ store.channels.size := by omega
  simp [Store.channel, newChannel, Array.getElem?_push, ne]

end Store

/-! ## Actions -/

namespace Action

variable {action : Action} {reply : action.Reply}

/-- A channel is either there before an action or not even there after it. -/
def Knows (channel : Nat) (store after : Store) : Prop :=
  channel < store.channels.size ∨ after.channels.size ≤ channel

section

variable (avoids : action.Avoids channel) (knows : Knows channel store after)

include avoids knows

theorem undisturbed (performed : action.perform store = (some reply, after)) :
    store.Undisturbed channel after := by
  obtain rfl : (action.perform store).2 = after := congrArg Prod.snd performed
  have effect := action.effect_perform store
  exact
    { channel_eq := by
        generalize (action.perform store).2 = after at knows effect ⊢
        cases effect with
        | newChannel =>
          refine channel_newChannel ?_ _
          simpa [Knows, Store.newChannel] using knows
        | channel changes =>
          refine store.channel_setChannel_of_ne (fun same => ?_) _
          cases action <;> cases changes <;> exact avoids (congrArg some same)
        | _ => rfl
      size_le := effect.channels_size_le
      launched_eq := by
        generalize (action.perform store).2 = after at effect ⊢
        cases effect with
        | @launch _ daemon launches =>
          subst launches
          have other : daemon.duty.channel? ≠ some channel := avoids
          simp [Store.launchedOn, other]
        | _ => rfl
      queues := fun queues scheduler queue waiting daemon mem => by
        obtain ⟨former, formerly, daemons⟩ := effect.queue_cases waiting
        rcases daemons daemon mem with before | rfl
        · exact queues scheduler former formerly daemon before
        · exact avoids
      started := fun scheduler started => by
        rw [Scheduler.isStarted, Option.isNone_iff_eq_none] at started ⊢
        refine Option.eq_none_iff_forall_ne_some.mpr fun queue waiting => ?_
        obtain ⟨former, formerly, -⟩ := effect.queue_cases waiting
        rw [started] at formerly
        cases formerly
      readers := fun thunk => by
        refine ⟨fun found => ?_, effect.grows.keeps thunk _⟩
        rcases effect.slot?_cases found with before | made
        · exact before
        · cases action <;> cases made
          exact (avoids rfl).elim }

theorem tells (queues : store.QueuesAvoid channel)
    (performed : action.perform store = (some reply, after)) :
    action.Tells (.avoiding channel) reply := by
  refine ⟨action.told_everything reply, ?_⟩
  cases action with
  | newChannel bound =>
    simp only [perform, perform.replying, Store.newChannel, Prod.mk.injEq,
      Option.some.injEq] at performed
    obtain ⟨rfl, rfl⟩ := performed
    simp only [Knows, Array.size_push] at knows
    have ne : store.channels.size ≠ channel := by omega
    exact fun same => ne (Option.some.inj same)
  | submit scheduler duty =>
    intro daemon urgent
    have submitted := (Option.some.inj (congrArg Prod.fst performed)).trans urgent
    rw [Scheduler.eq_of_submit submitted]
    exact avoids
  | takeQueue scheduler =>
    intro queue taken
    exact queues scheduler queue ((Option.some.inj (congrArg Prod.fst performed)).trans taken)
  | _ => trivial

end

end Action

/-! ## Threads -/

/-- The computations that wait on a stack avoid a channel. -/
def Stack.Apart (channel : Nat) : Stack ρ → Prop
  | .base _ => True
  | .nested next _ rest => (∀ value, (next value).Avoids channel) ∧ rest.Apart channel

namespace Thread

/-- The computations that a thread runs avoid a channel. -/
def Apart (channel : Nat) : Thread ρ → Prop
  | .running _ => True
  | .driving code _ stack => code.Avoids channel ∧ stack.Apart channel
  | .settling _ _ stack => stack.Apart channel

/-- A thread has just claimed the list behind a channel, on top of a chain. -/
def Claims (channel : Nat) (thunk : Thunk) (thread : Thread ρ) : Prop :=
  ∃ chain stack, stack.Apart channel ∧
    thread = .driving (receiveStep channel) (⟨thunk, none⟩ :: chain) stack

variable {self : Nat} {thread next : Thread ρ}
variable {code : Code ρ} {thunk : Thunk} {chain : List Link} {stack : Stack ρ}
variable {bottom : List Link × (Value → Code ρ)}

/-- What a step of a thread does to a channel, as far as it is not a step of its own code:
nothing, or the list behind the channel is claimed. -/
def SparesOrClaims (channel self : Nat) (store : Store) (next : Thread ρ) (after : Store) : Prop :=
  (next.Apart channel ∧ store.Undisturbed channel after) ∨
    ∃ thunk, store.slot? thunk = some (.suspended (.receive channel)) ∧
      after = store.setSlot thunk (.evaluating self) ∧ next.Claims channel thunk

theorem sparesOrClaims_of_owned {computation : Suspension} (apart : stack.Apart channel)
    (suspended : store.slot? thunk = some (.suspended computation)) :
    SparesOrClaims channel self store
      (driving computation.resume (⟨thunk, computation.site⟩ :: chain) stack)
      (store.setSlot thunk (.evaluating self)) := by
  by_cases other : computation = .receive channel
  · subst other
    exact .inr ⟨thunk, suspended, rfl, chain, stack, apart, rfl⟩
  · refine .inl ⟨⟨Suspension.resume_avoids other, apart⟩, ?_⟩
    exact undisturbed_setSlot suspended (by simpa using other) (by simp)

theorem Apart.of_asks (apart : thread.Apart channel) (asks : thread.Asks thunk answered chain stack)
    (seeks : thread.bottom? = some bottom) :
    stack.Apart channel ∧ ∀ value, (answered value).Apart channel := by
  cases asks with
  | follow thunk chain stack => exact ⟨apart.2, fun _ => apart.2⟩
  | evaluate context thunk following =>
    cases context with
    | top => cases seeks
    | link chain stack =>
      have avoid : ∀ value, (following value).Avoids channel :=
        fun value => apart.1 value value.fits_everything
      exact ⟨⟨avoid, apart.2⟩, fun value => ⟨avoid value, apart.2⟩⟩

/-- While a value is sought, only computations take steps. -/
theorem Apart.sparesOrClaims (apart : thread.Apart channel)
    (seeks : thread.bottom? = some bottom) (owns : thread.Owns self store)
    (knows : Action.Knows channel store after) (queues : store.QueuesAvoid channel)
    (moved : thread.step self store = (.moved next, after)) :
    SparesOrClaims channel self store next after := by
  cases steps_of_step moved with
  | act context performed =>
    cases context with
    | top => cases seeks
    | link chain stack =>
      obtain ⟨⟨avoids, rest⟩, stackApart⟩ := apart
      exact .inl ⟨⟨rest _ (Action.tells avoids.2 knows queues performed), stackApart⟩,
        Action.undisturbed avoids.2 knows performed⟩
  | answer asks | cycle asks => exact .inl ⟨(apart.of_asks asks seeks).2 _, .refl channel _⟩
  | claim asks suspended => exact sparesOrClaims_of_owned (apart.of_asks asks seeks).1 suspended
  | call context =>
    cases context with
    | top => cases seeks
    | link chain stack =>
      obtain ⟨⟨avoids, rest⟩, stackApart⟩ := apart
      exact .inl ⟨⟨avoids.body.bind rest, stackApart⟩, .refl channel _⟩
  | breakOff => exact .inl ⟨apart.2, .refl channel _⟩
  | settled value stack =>
    cases stack with
    | base following => exact .inl ⟨trivial, .refl channel _⟩
    | nested following chain rest => exact .inl ⟨⟨apart.1 value, apart.2⟩, .refl channel _⟩
  | publish =>
    have marked := owns.slot?_head rfl
    exact .inl ⟨apart, undisturbed_setSlot marked (by simp) (by simp)⟩

/-- What a step of a thread that is apart from a channel does: its own code takes a step, or
the own code stands where it did and the channel is not disturbed, or the list behind the
channel is claimed. -/
inductive Stride (channel self : Nat) (code : Code ρ) (store : Store) (next : Thread ρ)
    (after : Store) : Prop
  | own (rest : Code ρ)
      (next_eq : next = .running rest)
      (advances : code.Advances store rest after)
  | spare
      (stands : next.Stands after code)
      (apart : next.Apart channel)
      (undisturbed : store.Undisturbed channel after)
  | claim (thunk : Thunk)
      (stands : next.Stands after code)
      (suspended : store.slot? thunk = some (.suspended (.receive channel)))
      (store_eq : after = store.setSlot thunk (.evaluating self))
      (claims : next.Claims channel thunk)

theorem SparesOrClaims.stride (stands : next.Stands after code)
    (does : SparesOrClaims channel self store next after) :
    Stride channel self code store next after := by
  rcases does with ⟨apart, undisturbed⟩ | ⟨thunk, suspended, store_eq, claims⟩
  · exact .spare stands apart undisturbed
  · exact .claim thunk stands suspended store_eq claims

theorem stride_running (owns : (running code).Owns self store)
    (moved : (running code).step self store = (.moved next, after)) :
    Stride channel self code store next after := by
  rcases moves_running owns moved with
    ⟨rest, next_eq, advances⟩ | ⟨thunk, following, _, rfl, suspended, rfl, rfl⟩
  · exact .own rest next_eq advances
  · exact SparesOrClaims.stride (.seeking rfl rfl) (sparesOrClaims_of_owned trivial suspended)

theorem Apart.stride (apart : thread.Apart channel)
    (stands : thread.Stands store code) (owns : thread.Owns self store)
    (knows : Action.Knows channel store after) (queues : store.QueuesAvoid channel)
    (moved : thread.step self store = (.moved next, after)) :
    Stride channel self code store next after := by
  cases stands with
  | own code => exact stride_running owns moved
  | seeking bottom_eq first =>
    exact SparesOrClaims.stride (stands_of_seeking bottom_eq first owns moved)
      (apart.sparesOrClaims bottom_eq owns knows queues moved)
  | found evaluated =>
    cases moved
    exact .own _ rfl (.answer (slot_eq_of_slot? evaluated))

end Thread

/-! ## Own code -/

theorem Code.Advances.avoids {code rest : Code ρ} (advances : code.Advances store rest after)
    (avoids : code.Avoids channel) (knows : Action.Knows channel store after)
    (queues : store.QueuesAvoid channel) :
    rest.Avoids channel ∧ store.Undisturbed channel after := by
  cases advances with
  | act performed =>
    exact ⟨avoids.2 _ (Action.tells avoids.1.2 knows queues performed),
      Action.undisturbed avoids.1.2 knows performed⟩
  | call => exact ⟨avoids.1.body.bind avoids.2, .refl channel _⟩
  | answer evaluated => exact ⟨avoids _ (Value.fits_everything _), .refl channel _⟩

end ByNeed
