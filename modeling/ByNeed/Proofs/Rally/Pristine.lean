import ByNeed.Proofs.Rally.Shifts

/-!
# Channels that are yet to be made

Nobody knows a channel before it is made: no thread uses it, no daemon publishes on it, and
no list reads it.
-/

namespace ByNeed

variable {ρ α : Type} {channel : Nat} {store after : Store}

/-- A thread leaves a channel alone. -/
def Thread.Bystands (channel : Nat) (store : Store) (thread : Thread ρ) : Prop :=
  (∃ code, thread.Stands store code ∧ code.Avoids channel) ∧ thread.Apart channel

namespace Thread

variable {thread next : Thread ρ} {self : Nat}

theorem Bystands.mono (bystands : thread.Bystands channel store) (keeps : store.Remembers after) :
    thread.Bystands channel after := by
  obtain ⟨⟨code, stands, avoids⟩, apart⟩ := bystands
  exact ⟨⟨code, stands.mono keeps, avoids⟩, apart⟩

theorem bystands_running (avoids : code.Avoids channel) : (running code).Bystands channel store :=
  ⟨⟨code, .own code, avoids⟩, trivial⟩

/-- What runs in a context may go on with any code that leaves the channel alone. -/
theorem Bystands.of_context {context : Context ρ α}
    (bystands : (context.thread code).Bystands channel store)
    (avoids : code.Avoids channel → rest.Avoids channel) :
    (context.thread rest).Bystands channel store := by
  obtain ⟨⟨own, stands, ownAvoids⟩, apart⟩ := bystands
  cases context with
  | top =>
    obtain rfl := stands.eq_of_running
    exact bystands_running (avoids ownAvoids)
  | link chain stack =>
    cases stands with
    | seeking bottom_eq first =>
      exact ⟨⟨_, .seeking bottom_eq first, ownAvoids⟩, avoids apart.1, apart.2⟩

/-- A step of a thread that leaves a channel alone, where no list reads it. -/
theorem Bystands.of_moved (bystands : thread.Bystands channel store) (owns : thread.Owns self store)
    (knows : Action.Knows channel store after) (queues : store.QueuesAvoid channel)
    (unread : ∀ thunk, store.slot? thunk ≠ some (.suspended (.receive channel)))
    (moved : thread.step self store = (.moved next, after)) :
    next.Bystands channel after ∧ store.Undisturbed channel after := by
  obtain ⟨⟨code, stands, avoids⟩, apart⟩ := bystands
  cases apart.stride stands owns knows queues moved with
  | own rest next_eq advances =>
    subst next_eq
    obtain ⟨restAvoids, undisturbed⟩ := advances.avoids avoids knows queues
    exact ⟨bystands_running restAvoids, undisturbed⟩
  | spare stands apart undisturbed => exact ⟨⟨⟨code, stands, avoids⟩, apart⟩, undisturbed⟩
  | claim thunk stands suspended => exact absurd suspended (unread thunk)

end Thread

namespace Service

variable {service next : Service} {realm : Realm} {number : Nat}

/-- Nobody knows a channel. -/
structure Pristine (channel : Nat) (service : Service) : Prop where
  queues : service.store.QueuesAvoid channel
  launched : service.store.launchedOn channel = []
  unread : ∀ thunk, service.store.slot? thunk ≠ some (.suspended (.receive channel))
  bystands : ∀ number task, service.tasks number = some task →
    task.thread.Bystands channel service.store

theorem Pristine.pass (pristine : service.Pristine channel) (passes : service.Passes number next)
    (undisturbed : service.store.Undisturbed channel next.store)
    (task : ∀ task, next.tasks number = some task → task.thread.Bystands channel next.store) :
    next.Pristine channel where
  queues := undisturbed.queues pristine.queues
  launched := undisturbed.launched_eq.trans pristine.launched
  unread thunk found := pristine.unread thunk ((undisturbed.readers thunk).mp found)
  bystands other found present := by
    by_cases same : other = number
    · subst same
      exact task found present
    · rw [passes.others other same] at present
      exact (pristine.bystands other found present).mono passes.keeps

/-- While a channel is not made, nobody gets to know it. -/
theorem Pristine.shift (pristine : service.Pristine channel) (soundIn : service.SoundIn realm)
    {shift : Shift} (unmade : (service.shift shift).store.channels.size ≤ channel) :
    (service.shift shift).Pristine channel ∧
      service.store.Persists channel (service.shift shift).store := by
  have turn := soundIn.turn channel shift
  generalize service.shift shift = next at turn unmade ⊢
  cases turn with
  | moved passes _ present moved presentNext =>
    obtain ⟨bystands, undisturbed⟩ := (pristine.bystands _ _ present).of_moved
      (soundIn.owns present) (.inr unmade) pristine.queues pristine.unread moved
    refine ⟨pristine.pass passes undisturbed fun task found => ?_, undisturbed.toPersists⟩
    rw [presentNext] at found
    cases found
    exact bystands
  | adopted _ mine launched =>
    exact absurd (launchedOn_withdraw launched mine) (by simp [pristine.launched])
  | quiet passes undisturbed _ present =>
    refine ⟨pristine.pass passes undisturbed fun task found => ?_, undisturbed.toPersists⟩
    rcases present task found with unchanged | ⟨request, code, rfl, avoids⟩
    · exact (pristine.bystands _ task unchanged).mono passes.keeps
    · exact Thread.bystands_running avoids

/-! ## What arises in company -/

/-- A service that has come about by shifts, from the first one. -/
def Arises (digest : List Piece → UInt64) (service : Service) : Prop :=
  ∃ past, service = (initial digest).shifts past

variable {digest : List Piece → UInt64}

namespace Arises

section

variable (arises : service.Arises digest)

include arises

theorem shift (shift : Shift) : (service.shift shift).Arises digest := by
  obtain ⟨past, rfl⟩ := arises
  exact ⟨past ++ [shift], by rw [shifts_append]; rfl⟩

theorem shifts (further : List Shift) : (service.shifts further).Arises digest := by
  obtain ⟨past, rfl⟩ := arises
  exact ⟨past ++ further, (shifts_append ..).symm⟩

theorem exists_soundIn : ∃ realm, service.SoundIn realm := by
  obtain ⟨past, rfl⟩ := arises
  obtain ⟨realm, -, soundIn⟩ := (soundIn_initial digest).shifts past
  exact ⟨realm, soundIn⟩

end

end Arises

/-- Nobody knows a channel that is not made. -/
def KeepsSecrets (service : Service) : Prop :=
  ∀ channel, service.store.channels.size ≤ channel → service.Pristine channel

theorem keepsSecrets_initial (digest : List Piece → UInt64) : (initial digest).KeepsSecrets := by
  have slots : (initial digest).store.slots = #[] := Store.slots_installAll _ _
  intro channel _
  exact
    { queues := fun scheduler queue waiting => by
        have idle : ((initial digest).store.scheduler scheduler).queue = some [] := rfl
        rw [idle] at waiting
        cases waiting
        exact fun _ mem => by cases mem
      launched := rfl
      unread := fun thunk found => by simp [Store.slot?, slots] at found
      bystands := fun number task present => by cases present }

/-- No channel is lost by a shift, so nobody gets to know one too early. -/
theorem KeepsSecrets.shift (secret : service.KeepsSecrets) (soundIn : service.SoundIn realm)
    (shift : Shift) : (service.shift shift).KeepsSecrets ∧
      ∃ channel, service.store.Persists channel (service.shift shift).store := by
  have persists := ((secret _ (Nat.le_max_left ..)).shift soundIn
    (Nat.le_max_right service.store.channels.size (service.shift shift).store.channels.size)).2
  refine ⟨fun channel unmade => ?_, _, persists⟩
  exact ((secret channel (Nat.le_trans persists.size_le unmade)).shift soundIn unmade).1

theorem KeepsSecrets.shifts (secret : service.KeepsSecrets) (soundIn : service.SoundIn realm)
    (shifts : List Shift) : (service.shifts shifts).KeepsSecrets := by
  induction shifts generalizing service realm with
  | nil => exact secret
  | cons first rest ih =>
    obtain ⟨later, -, soundThen⟩ := soundIn.shift first
    exact ih (secret.shift soundIn first).1 soundThen

theorem Arises.keepsSecrets (arises : service.Arises digest) : service.KeepsSecrets := by
  obtain ⟨past, rfl⟩ := arises
  exact (keepsSecrets_initial digest).shifts (soundIn_initial digest) past

theorem Arises.isStarted_shift (arises : service.Arises digest)
    (started : (service.store.scheduler scheduler).isStarted = true) (shift : Shift) :
    ((service.shift shift).store.scheduler scheduler).isStarted = true := by
  obtain ⟨realm, soundIn⟩ := arises.exists_soundIn
  obtain ⟨channel, persists⟩ := (arises.keepsSecrets.shift soundIn shift).2
  exact persists.started scheduler started

end Service
end ByNeed
