import ByNeed.Proofs.Rally.Delivery
import ByNeed.Proofs.Handoff.Tape

/-!
# Readers of the list behind a channel

Whoever claims the last cell of the list reads the channel for it, and then makes the next cell or
closes the list.  The token of the tape follows them: there is never more than one.
-/

namespace ByNeed

variable {ρ : Type} {self channel : Nat} {store after : Store}
variable {chain : List Link} {thunk : Thunk} {next : Thread ρ} {computation : Code Thunk}

namespace Store

theorem upholds_setChannel (store : Store) (other : Nat) (state : Channel) :
    store.Upholds channel (store.setChannel other state) where
  size_le := by simp [setChannel]
  queues avoid := avoid
  started _ started := started
  readers _ := Iff.rfl

theorem upholds_launched (store : Store) (launched : List (Nat × Daemon)) :
    store.Upholds channel { store with launched } where
  size_le := Nat.le_refl _
  queues avoid := avoid
  started _ started := started
  readers _ := Iff.rfl

theorem persists_slots (store : Store) (channel : Nat) (slots : Array Slot) :
    store.Persists channel { store with slots } where
  size_le := Nat.le_refl _
  queues avoid := avoid
  started _ started := started

/-- A thunk that holds something after one was made is that one, or held it before. -/
theorem eq_or_of_slot?_allocate (store : Store) {slot found : Slot}
    (held : (store.allocate slot).2.slot? thunk = some found) :
    thunk = (store.allocate slot).1 ∨ store.slot? thunk = some found := by
  rw [slot?_allocate] at held
  split at held
  · rename_i isNew
    left
    cases thunk
    cases isNew
    rfl
  · exact .inr held

end Store

theorem Thread.exists_reply_of_driving
    (moved : (driving (.act action following) chain stack).step self store = (.moved next, after)) :
    ∃ reply, action.perform store = (some reply, after) ∧
      next = driving (following reply) chain stack := by
  simp only [step] at moved
  split at moved
  · rename_i reply changed performed
    cases moved
    exact ⟨reply, performed, rfl⟩
  · cases moved

theorem Thread.Stands.of_driving (stands : (driving computation chain stack).Stands store code)
    (owns : (driving computation chain stack).Owns self store)
    (moved : (driving computation chain stack).step self store = (.moved next, after)) :
    next.Stands after code := by
  cases stands with
  | seeking bottom_eq first => exact stands_of_seeking bottom_eq first owns moved

theorem Action.exists_reading
    (performed : (Action.receive channel).perform store = (some reading, after)) :
    ∃ state, (store.channel channel).receive? = some (reading, state) ∧
      after = store.setChannel channel state := by
  simp only [perform] at performed
  split at performed
  · cases performed
  · rename_i found state received
    cases performed
    exact ⟨state, received, rfl⟩

/-- Nobody but the thread under a number has changed, and what was settled is so still. -/
structure Service.Passes (number : Nat) (service next : Service) : Prop where
  keeps : ∀ thunk value, service.store.slot? thunk = some (.evaluated value) →
    next.store.slot? thunk = some (.evaluated value)
  delivers : ∀ thunk value, service.Delivers thunk value → next.Delivers thunk value
  others : ∀ other, other ≠ number → next.tasks other = service.tasks other

theorem Service.SoundIn.passes {service : Service} (soundIn : service.SoundIn realm) {shift : Shift}
    (others : ∀ other, other ≠ number → (service.shift shift).tasks other = service.tasks other) :
    service.Passes number (service.shift shift) where
  keeps _ _ := soundIn.keeps shift
  delivers _ _ delivers := delivers.shift soundIn shift
  others := others

namespace Handoff

variable {tape later : Tape} {service next : Service} {number channel publishers : Nat}
  {request : Request} {thread former : Thread request.Result}
  {first last thunk : Thunk} {token : Token} {found : Channel.Reading}

/-! ## The last cell -/

/-- A thread has read something for the cell it has claimed last. -/
def HasRead {ρ : Type} (channel : Nat) (thunk : Thunk) (found : Channel.Reading)
    (thread : Thread ρ) : Prop :=
  ∃ chain stack, stack.Apart channel ∧
    thread = .driving (cellFor channel found) (⟨thunk, none⟩ :: chain) stack

/-- What is known of the last cell, by who may read it. -/
def LastCell (channel : Nat) (last : Thunk) (service : Service) : Token → Prop
  | .unmade => True
  | .idle => service.store.slot? last = some (.suspended (.receive channel))
  | .reading number =>
    ∃ task, service.tasks number = some task ∧ task.thread.Claims channel last
  | .read number found =>
    ∃ task, service.tasks number = some task ∧ HasRead channel last found task.thread
  | .failed error => service.Delivers last (.error error)
  | .ended => service.Delivers last (.list .empty)

namespace LastCell

variable (lastCell : LastCell channel last service token)

include lastCell

/-- What happens to others leaves a thread that has claimed a cell where it was. -/
theorem keep (passes : service.Passes number next)
    (holder : token.holder? = some number → next.tasks number = service.tasks number)
    (readers : ∀ thunk, next.store.slot? thunk = some (.suspended (.receive channel)) ↔
      service.store.slot? thunk = some (.suspended (.receive channel))) :
    LastCell channel last next token := by
  have same : ∀ other, token.holder? = some other →
      next.tasks other = service.tasks other := by
    intro other holds
    by_cases isNumber : other = number
    · subst isNumber
      exact holder holds
    · exact passes.others other isNumber
  cases token with
  | unmade => trivial
  | idle => exact (readers last).mpr lastCell
  | reading other =>
    obtain ⟨task, present, claims⟩ := lastCell
    exact ⟨task, (same other rfl).trans present, claims⟩
  | read other found =>
    obtain ⟨task, present, hasRead⟩ := lastCell
    exact ⟨task, (same other rfl).trans present, hasRead⟩
  | _ => exact passes.delivers _ _ lastCell

theorem exists_holder (holds : token.holder? = some number) :
    ∃ task, service.tasks number = some task ∧
      (token = .reading number ∧ task.thread.Claims channel last ∨
        ∃ found, token = .read number found ∧ HasRead channel last found task.thread) := by
  cases token with
  | reading other =>
    cases holds
    obtain ⟨task, present, claims⟩ := lastCell
    exact ⟨task, present, .inl ⟨rfl, claims⟩⟩
  | read other found =>
    cases holds
    obtain ⟨task, present, hasRead⟩ := lastCell
    exact ⟨task, present, .inr ⟨found, rfl, hasRead⟩⟩
  | _ => cases holds

theorem reads (present : service.tasks number = some ⟨request, former⟩)
    (holds : token.holder? = some number) :
    token = .reading number ∧ former.Claims channel last ∨
      ∃ found, token = .read number found ∧ HasRead channel last found former := by
  obtain ⟨task, isThere, reads⟩ := lastCell.exists_holder holds
  rw [present] at isThere
  cases isThere
  exact reads

theorem notHolder_of_free (free : service.tasks number = none) : token.holder? ≠ some number := by
  intro holds
  obtain ⟨task, present, -⟩ := lastCell.exists_holder holds
  rw [free] at present
  cases present

/-- Whoever runs its own code does not read on. -/
theorem tasks_eq
    (former : (∀ task, service.tasks number = some task → ∃ code, task.thread = .running code) ∨
      next.tasks number = service.tasks number) (holds : token.holder? = some number) :
    next.tasks number = service.tasks number := by
  refine former.resolve_left fun runs => ?_
  obtain ⟨task, present, reads⟩ := lastCell.exists_holder holds
  obtain ⟨code, running⟩ := runs task present
  rw [running] at reads
  rcases reads with ⟨-, chain, stack, -, ⟨⟩⟩ | ⟨found, -, chain, stack, -, ⟨⟩⟩

/-- The own code of whoever reads on stands where it did. -/
theorem stands (holds : token.holder? = some number)
    (present : service.tasks number = some ⟨request, former⟩)
    (stands : former.Stands service.store code) (owns : former.Owns number service.store)
    (moved : former.step number service.store = (.moved thread, next.store)) :
    thread.Stands next.store code := by
  rcases lastCell.reads present holds with
    ⟨-, chain, stack, -, rfl⟩ | ⟨found, -, chain, stack, -, rfl⟩
  all_goals exact Thread.Stands.of_driving stands owns moved

/-- Whoever has read a failure will publish it. -/
theorem delivers_of_pending (failed : token.pending = [.failure error]) :
    service.Delivers last (.error error) := by
  unfold Token.pending at failed
  split at failed
  · cases failed
  · rename_i number found
    cases failed
    obtain ⟨task, present, chain, stack, -, thread_eq⟩ := lastCell
    exact .inr ⟨number, task, present, thread_eq ▸ .closing channel chain stack⟩
  · cases failed
    exact lastCell
  · cases failed

end LastCell

/-! ## Reading on -/

/-- The channel, its list and whoever reads it are as the tape says. -/
structure Tape.Kept (tape : Tape) (channel publishers : Nat) (first : Thunk) (service : Service) :
    Prop where
  held : channel < service.store.channels.size
  books : tape.Books publishers (service.store.channel channel)
  readers : ∀ thunk, service.store.slot? thunk = some (.suspended (.receive channel)) →
    tape.token = .idle ∧ thunk = tape.last
  trail : tape.token ≠ .unmade → service.Trail first tape.items tape.last
  lastCell : LastCell channel tape.last service tape.token

/-- A thread takes a step that reads the list on, and the tape is kept. -/
structure Tape.ReadsOn (tape later : Tape) (channel publishers : Nat) (first : Thunk)
    (service : Service) (number : Nat) (thread : Thread request.Result) (next : Service) :
    Prop where
  passes : service.Passes number next
  present : next.tasks number = some ⟨request, thread⟩
  persists : service.store.Persists channel next.store
  launched_eq : next.store.launchedOn channel = service.store.launchedOn channel
  wasOpen : tape.token.isOpen = true
  holder : ∀ other, tape.token.holder? = some other → other = number
  log_eq : later.log = tape.log
  dropped_eq : later.dropped = tape.dropped
  made : later.token ≠ .unmade
  apart : later.token.holder? ≠ some number → thread.Apart channel
  kept : later.Kept channel publishers first next

namespace Tape.Kept

/-- The token stays where it is, and the list as far as it is made. -/
theorem keep {log : List Message} {dropped : Bool} {present : Nat}
    (kept : tape.Kept channel publishers first service) (passes : service.Passes number next)
    (upholds : service.store.Upholds channel next.store)
    (holder : tape.token.holder? = some number → next.tasks number = service.tasks number)
    (books : Books { tape with log, dropped } present (next.store.channel channel)) :
    Kept { tape with log, dropped } channel present first next where
  held := Nat.lt_of_lt_of_le kept.held upholds.size_le
  books := books
  readers thunk found := kept.readers thunk ((upholds.readers thunk).mp found)
  trail made := (kept.trail made).mono passes.delivers
  lastCell := kept.lastCell.keep passes holder upholds.readers

variable (kept : tape.Kept channel publishers first service)
  (passes : service.Passes number next) (present : next.tasks number = some ⟨request, thread⟩)

include kept passes present

/-- A thread claims the last cell. -/
theorem claim (suspended : service.store.slot? thunk = some (.suspended (.receive channel)))
    (after_eq : next.store = service.store.setSlot thunk (.evaluating number))
    (claims : thread.Claims channel thunk) :
    tape.ReadsOn { tape with token := .reading number } channel publishers first service number
      thread next := by
  obtain ⟨isIdle, rfl⟩ := kept.readers thunk suspended
  have wasOpen : tape.token.isOpen = true := by rw [isIdle]; rfl
  have persists : service.store.Persists channel next.store := by
    rw [after_eq]
    exact service.store.persists_slots _ _
  exact
    { passes, present, persists, wasOpen
      launched_eq := by rw [after_eq]; rfl
      holder := by simp [isIdle, Token.holder?]
      log_eq := rfl
      dropped_eq := rfl
      made := by simp
      apart := fun notHolder => absurd rfl notHolder
      kept :=
        { held := Nat.lt_of_lt_of_le kept.held persists.size_le
          books := by
            rw [after_eq]
            exact kept.books.pass wasOpen rfl rfl (by rw [isIdle]; rfl)
          readers := fun thunk found => by
            rw [after_eq] at found
            by_cases same : thunk = tape.last
            · rw [same, Store.slot?_setSlot_self suspended] at found
              cases found
            · rw [Store.slot?_setSlot_of_ne _ same] at found
              exact absurd (kept.readers thunk found).2 same
          trail := fun _ => (kept.trail (by simp [isIdle])).mono passes.delivers
          lastCell := ⟨_, present, claims⟩ } }

/-- The thread that has claimed the last cell reads. -/
theorem receive (reading : tape.token = .reading number)
    (claims : former.Claims channel tape.last)
    (moved : former.step number service.store = (.moved thread, next.store)) :
    ∃ later, tape.ReadsOn later channel publishers first service number thread next := by
  obtain ⟨chain, stack, stackApart, rfl⟩ := claims
  obtain ⟨found, performed, rfl⟩ := Thread.exists_reply_of_driving moved
  obtain ⟨state, received, after_eq⟩ := Action.exists_reading performed
  have persists : service.store.Persists channel next.store := by
    rw [after_eq]
    exact (service.store.upholds_setChannel _ _).toPersists
  exact ⟨tape.read number found,
    { passes, present, persists
      launched_eq := by rw [after_eq]; rfl
      wasOpen := by rw [reading]; rfl
      holder := by simp [reading, Token.holder?]
      log_eq := rfl
      dropped_eq := rfl
      made := by simp [Tape.read]
      apart := fun notHolder => absurd rfl notHolder
      kept :=
        { held := Nat.lt_of_lt_of_le kept.held persists.size_le
          books := by
            rw [after_eq, Store.channel_setChannel_self kept.held]
            exact kept.books.read reading received
          readers := fun thunk suspended => by
            rw [after_eq] at suspended
            have isIdle := (kept.readers thunk suspended).1
            rw [reading] at isIdle
            cases isIdle
          trail := fun _ => (kept.trail (by simp [reading])).mono passes.delivers
          lastCell := ⟨_, present, chain, stack, stackApart, rfl⟩ } }⟩

/-- The thread that has read an element makes the next cell. -/
theorem makeCell (read : tape.token = .read number (.item element))
    (hasRead : HasRead channel tape.last (.item element) former)
    (moved : former.step number service.store = (.moved thread, next.store)) :
    ∃ later, tape.ReadsOn later channel publishers first service number thread next := by
  obtain ⟨chain, stack, stackApart, rfl⟩ := hasRead
  obtain ⟨cell, performed, rfl⟩ := Thread.exists_reply_of_driving moved
  obtain ⟨cell_eq, after_eq⟩ := Prod.mk.inj performed
  have wasOpen : tape.token.isOpen = true := by rw [read]; rfl
  have persists : service.store.Persists channel next.store := by
    rw [← after_eq]
    exact service.store.persists_slots _ _
  exact ⟨{ tape with items := tape.items ++ [element], last := cell, token := .idle },
    { passes, present, persists, wasOpen
      launched_eq := by rw [← after_eq]; rfl
      holder := by simp [read, Token.holder?]
      log_eq := rfl
      dropped_eq := rfl
      made := by simp
      apart := fun _ => ⟨newValue_avoids _, stackApart⟩
      kept :=
        { held := Nat.lt_of_lt_of_le kept.held persists.size_le
          books := by
            rw [← after_eq]
            exact kept.books.pass wasOpen rfl rfl (by simp [read, Token.pending])
          readers := fun thunk suspended => by
            rw [← after_eq] at suspended
            rcases service.store.eq_or_of_slot?_allocate suspended with isCell | formerly
            · exact ⟨rfl, isCell.trans (Option.some.inj cell_eq)⟩
            · have isIdle := (kept.readers thunk formerly).1
              rw [read] at isIdle
              cases isIdle
          trail := fun _ => by
            have trail := (kept.trail (by simp [read])).mono passes.delivers
            exact trail.snoc (.inr ⟨number, _, present, .making chain stack⟩)
          lastCell := by
            change next.store.slot? cell = _
            rw [← after_eq, ← Option.some.inj cell_eq]
            exact service.store.slot?_allocated _ } }⟩

/-- The thread that has read a failure, or the end, closes the list. -/
theorem close {chain : List Link} {stack : Stack request.Result} {value : Value} (token : Token)
    (read : tape.token = .read number found) (stackApart : stack.Apart channel)
    (moved : (Thread.driving (.act (.abandon channel) fun _ => newValue value)
      (⟨tape.last, none⟩ :: chain) stack).step number service.store = (.moved thread, next.store))
    (made : token ≠ .unmade) (closed : token.isOpen = false)
    (ended_eq : token.isEnded = tape.token.isEnded)
    (pending_eq : token.pending = tape.token.pending)
    (lastCell : next.Delivers tape.last value → LastCell channel tape.last next token) :
    ∃ later, tape.ReadsOn later channel publishers first service number thread next := by
  obtain ⟨_, performed, rfl⟩ := Thread.exists_reply_of_driving moved
  have after_eq : service.store.modifyChannel channel Channel.abandon = next.store :=
    congrArg Prod.snd performed
  have persists : service.store.Persists channel next.store := by
    rw [← after_eq]
    exact (service.store.upholds_setChannel _ _).toPersists
  exact ⟨{ tape with token },
    { passes, present, persists, made
      launched_eq := by rw [← after_eq]; rfl
      wasOpen := by rw [read]; rfl
      holder := by simp [read, Token.holder?]
      log_eq := rfl
      dropped_eq := rfl
      apart := fun _ => ⟨newValue_avoids _, stackApart⟩
      kept :=
        { held := Nat.lt_of_lt_of_le kept.held persists.size_le
          books := by
            rw [← after_eq, Store.modifyChannel, Store.channel_setChannel_self kept.held]
            exact kept.books.close closed ended_eq pending_eq
          readers := fun thunk suspended => by
            rw [← after_eq] at suspended
            have isIdle := (kept.readers thunk suspended).1
            rw [read] at isIdle
            cases isIdle
          trail := fun _ => (kept.trail (by simp [read])).mono passes.delivers
          lastCell := lastCell (.inr ⟨number, _, present, .making chain stack⟩) } }⟩

/-- The thread that may read on takes a step. -/
theorem stepHolder (holds : tape.token.holder? = some number)
    (presentBefore : service.tasks number = some ⟨request, former⟩)
    (moved : former.step number service.store = (.moved thread, next.store)) :
    ∃ later, tape.ReadsOn later channel publishers first service number thread next := by
  rcases kept.lastCell.reads presentBefore holds with ⟨reading, claims⟩ | ⟨found, read, hasRead⟩
  · exact kept.receive passes present reading claims moved
  cases found with
  | item element => exact kept.makeCell passes present read hasRead moved
  | failure error =>
    obtain ⟨chain, stack, stackApart, rfl⟩ := hasRead
    exact kept.close passes present (.failed error) read stackApart moved (by simp) rfl
      (by rw [read]; rfl) (by rw [read]; rfl) id
  | ended =>
    obtain ⟨chain, stack, stackApart, rfl⟩ := hasRead
    exact kept.close passes present .ended read stackApart moved (by simp) rfl (by rw [read]; rfl)
      (by rw [read]; rfl) id

end Tape.Kept

/-! ## The list as far as it is made -/

namespace Tape.Kept

variable (kept : tape.Kept channel publishers first service) (made : tape.token ≠ .unmade)
  (soundIn : service.SoundIn realm)

include kept made soundIn

/-- What the last cell holds, or will. -/
theorem token_of_delivers (delivers : service.Delivers tape.last value) :
    (∃ error, tape.token.pending = [.failure error] ∧ value = .error error) ∨
      (tape.token.isEnded = true ∧ value = .list .empty) := by
  have lastCell := kept.lastCell
  have delivering : ∀ {number task}, service.tasks number = some task →
      tape.last ∈ task.thread.claims → task.thread.Delivering service.store tape.last value :=
    fun present => delivers.delivering soundIn present
  cases token_eq : tape.token with
  | unmade => exact absurd token_eq made
  | idle =>
    rw [token_eq] at lastCell
    exact absurd lastCell (delivers.slot?_ne_suspended soundIn _)
  | reading number =>
    rw [token_eq] at lastCell
    obtain ⟨task, present, chain, stack, -, thread_eq⟩ := lastCell
    have delivering := delivering present (thread_eq ▸ List.mem_cons_self)
    rw [thread_eq] at delivering
    cases delivering
  | read number found =>
    rw [token_eq] at lastCell
    obtain ⟨task, present, chain, stack, -, thread_eq⟩ := lastCell
    have delivering := delivering present (thread_eq ▸ List.mem_cons_self)
    rw [thread_eq] at delivering
    cases found with
    | item element => cases delivering
    | failure error =>
      exact .inl ⟨error, rfl, delivering.unique (.closing channel chain stack)⟩
    | ended => exact .inr ⟨rfl, delivering.unique (.closing channel chain stack)⟩
  | failed error =>
    rw [token_eq] at lastCell
    exact .inl ⟨error, rfl, delivers.unique soundIn lastCell⟩
  | ended =>
    rw [token_eq] at lastCell
    exact .inr ⟨rfl, delivers.unique soundIn lastCell⟩

theorem unfinished (head tail : Thunk) : ¬service.Delivers tape.last (.list (.cons head tail)) := by
  intro delivers
  rcases kept.token_of_delivers made soundIn delivers with ⟨error, -, isError⟩ | ⟨-, isEnd⟩
  · cases isError
  · cases isEnd

/-- As far as the list is evaluated, its elements were read. -/
theorem exists_rest {items : List Thunk} (cells : service.store.Cells first items last) :
    ∃ rest, tape.items = items ++ rest ∧ service.Trail last rest tape.last :=
  (kept.trail made).of_cells soundIn cells fun head tail evaluated =>
    kept.unfinished made soundIn head tail (.inl evaluated)

end Tape.Kept
end Handoff
end ByNeed
