import Mathlib.Data.List.Basic
import ByNeed.Daemon.Channel

/-!
# The tape of a channel

A tape holds every message that a channel has accepted, how many were read, the cells of the list
behind the channel, and who may read on.  Everything that happens to the channel has its entry on
the tape.
-/

namespace ByNeed
namespace Handoff

open List Message

/-- Who may read the list behind a channel. -/
inductive Token where
  /-- The list is yet to be made. -/
  | unmade
  /-- Whoever claims its last cell. -/
  | idle
  /-- A thread has claimed the last cell and will read. -/
  | reading (task : Nat)
  /-- A thread has read, and will make the next cell or close the list. -/
  | read (task : Nat) (found : Channel.Reading)
  /-- Nobody: the list ends in an error. -/
  | failed (error : Error)
  /-- Nobody: the list has ended. -/
  | ended
  deriving DecidableEq

namespace Token

/-- The list is not closed. -/
def isOpen : Token → Bool
  | .failed _ | .ended => false
  | _ => true

/-- The list ends in an error. -/
def isFailed : Token → Bool
  | .failed _ => true
  | _ => false

/-- The end was read. -/
def isEnded : Token → Bool
  | .read _ .ended | .ended => true
  | _ => false

/-- The thread that has claimed the last cell. -/
def holder? : Token → Option Nat
  | .reading task | .read task _ => some task
  | _ => none

/-- What was read behind the elements of the list. -/
def pending : Token → List Message
  | .read _ (.item element) => [.item element]
  | .read _ (.failure error) | .failed error => [.failure error]
  | _ => []

theorem pending_of_isEnded {token : Token} (ended : token.isEnded = true) : token.pending = [] := by
  unfold isEnded at ended
  split at ended
  · rfl
  · rfl
  · cases ended

section

variable {token : Token}

theorem exists_pending_of_isFailed (failed : token.isFailed = true) :
    ∃ error, token.pending = [.failure error] := by
  cases token with
  | failed error => exact ⟨error, rfl⟩
  | _ => cases failed

theorem not_isFailed_of_isOpen (isOpen : token.isOpen = true) : token.isFailed = false := by
  cases token with
  | failed error => cases isOpen
  | _ => rfl

theorem not_isFailed_of_isEnded (ended : token.isEnded = true) : token.isFailed = false := by
  cases token with
  | failed error => cases ended
  | _ => rfl

/-- A list that is closed ends in an error unless its end was read. -/
theorem isFailed_of_not_isOpen (closed : token.isOpen = false) (unended : token.isEnded = false) :
    token.isFailed = true := by
  cases token with
  | failed error => rfl
  | ended => cases unended
  | _ => cases closed

end

end Token

/-- Everything there is to know of a channel and its list. -/
structure Tape where
  /-- The messages accepted, oldest first. -/
  log : List Message
  /-- How many of them were read. -/
  taken : Nat
  /-- The elements of the list. -/
  items : List Thunk
  /-- The last cell of the list. -/
  last : Thunk
  /-- Who may read on. -/
  token : Token
  /-- Whether the list was dropped. -/
  dropped : Bool

namespace Tape

variable {tape : Tape} {publishers number : Nat} {channel : Channel}

/-- Messages are accepted. -/
def listens (tape : Tape) : Bool :=
  tape.token.isOpen && !tape.dropped

/-- Record a message, if it is accepted. -/
def record (tape : Tape) (message : Message) : Tape :=
  { tape with log := if tape.listens then tape.log ++ [message] else tape.log }

/-- Something was read by the thread under a number. -/
def read (tape : Tape) (number : Nat) (found : Channel.Reading) : Tape :=
  let token : Token := .read number found
  { tape with taken := tape.taken + token.pending.length, token }

/-- A channel is as the tape says, and has so many publishers. -/
structure Books (tape : Tape) (publishers : Nat) (channel : Channel) : Prop where
  unread_eq : channel.unread = tape.log.drop tape.taken
  taken_le : tape.taken ≤ tape.log.length
  read_eq : tape.log.take tape.taken = tape.items.map item ++ tape.token.pending
  publishers_eq : channel.publishers = publishers
  listening_eq : channel.listening = tape.listens
  gone : channel.closed = true → channel.listening = false
  ended : tape.token.isEnded = true → publishers = 0 ∧ tape.taken = tape.log.length

/-- Nothing was sent on a new channel. -/
theorem Books.opening (last : Thunk) {token : Token} (isOpen : token.isOpen = true)
    (none_pending : token.pending = []) (unended : token.isEnded = false) (capacity : Nat) :
    Books { log := [], taken := 0, items := [], last, token, dropped := false } 1 { capacity } where
  unread_eq := rfl
  taken_le := Nat.le_refl 0
  read_eq := none_pending.symm
  publishers_eq := rfl
  listening_eq := by rw [listens, isOpen]; rfl
  gone closed := by cases closed
  ended ended := by simp [unended] at ended

namespace Books

variable (books : tape.Books publishers channel)

include books

theorem not_ended (present : 0 < publishers) : tape.token.isEnded = false :=
  Bool.eq_false_iff.mpr fun ended => Nat.ne_of_gt present (books.ended ended).1

/-- Somebody sends a message, which is accepted while the list can be read. -/
theorem record (present : 0 < publishers) (message : Message) :
    (tape.record message).Books publishers (channel.send message).2 := by
  cases listens : tape.listens with
  | true =>
    have listening := books.listening_eq.trans listens
    rw [channel.send_of_listening message listening, Tape.record, listens, if_pos rfl]
    exact
      { books with
        unread_eq := by rw [drop_append_of_le_length books.taken_le, ← books.unread_eq]
        taken_le := by
          rw [length_append]
          exact Nat.le_add_right_of_le books.taken_le
        read_eq := by rw [take_append_of_le_length books.taken_le, books.read_eq]
        ended := fun ended => absurd ended (Bool.eq_false_iff.mp (books.not_ended present)) }
  | false =>
    have gone := books.listening_eq.trans listens
    rw [channel.send_of_gone message gone, Tape.record, listens, if_neg Bool.false_ne_true]
    exact { books with gone := fun _ => gone }

theorem retain (present : 0 < publishers) : tape.Books (publishers + 1) channel.retain :=
  { books with
    publishers_eq := congrArg (· + 1) books.publishers_eq
    ended := fun ended => absurd ended (Bool.eq_false_iff.mp (books.not_ended present)) }

theorem release (present : 0 < publishers) : tape.Books (publishers - 1) channel.release :=
  { books with
    publishers_eq := congrArg (· - 1) books.publishers_eq
    ended := fun ended => absurd ended (Bool.eq_false_iff.mp (books.not_ended present)) }

/-- The list is dropped. -/
theorem drop : Books { tape with dropped := true } publishers channel.abandon :=
  { books with
    listening_eq := (Bool.and_false _).symm
    gone := fun _ => rfl }

/-- The token is passed on, and nothing is read. -/
theorem pass {items : List Thunk} {last : Thunk} {token : Token}
    (wasOpen : tape.token.isOpen = true) (isOpen : token.isOpen = true)
    (unended : token.isEnded = false)
    (pending_eq : items.map item ++ token.pending = tape.items.map item ++ tape.token.pending) :
    Books { tape with items, last, token } publishers channel :=
  { books with
    read_eq := books.read_eq.trans pending_eq.symm
    listening_eq := by rw [books.listening_eq, listens, listens, wasOpen, isOpen]
    ended := fun ended => absurd ended (Bool.eq_false_iff.mp unended) }

theorem read_next (unread_eq : channel.unread = message :: rest) :
    tape.log.take (tape.taken + 1) = tape.log.take tape.taken ++ [message] ∧
      tape.taken + 1 ≤ tape.log.length ∧ rest = tape.log.drop (tape.taken + 1) := by
  have drop_eq := books.unread_eq.symm.trans unread_eq
  have found : tape.log[tape.taken]? = some message := by
    rw [← head?_drop, drop_eq]
    rfl
  refine ⟨by rw [take_add_one, found]; rfl, ?_, ?_⟩
  · exact (List.getElem?_eq_some_iff.mp found).1
  · rw [← tail_drop, drop_eq]
    rfl

/-- The oldest message that is unread is read, or else the end. -/
theorem read {state : Channel} (reading : tape.token = .reading number)
    (received : channel.receive? = some (found, state)) :
    (tape.read number found).Books publishers state := by
  have none_pending : tape.items.map item ++ tape.token.pending = tape.items.map item := by
    rw [reading]
    exact append_nil _
  have listens_eq : (tape.read number found).listens = tape.listens := by
    rw [listens, listens, reading]
    rfl
  unfold Channel.receive? at received
  split at received
  · rename_i message rest unread_eq
    cases received
    have pending_eq : (Token.read number (.ofMessage message)).pending = [message] := by
      cases message <;> rfl
    have unended : (Token.read number (.ofMessage message)).isEnded = false := by
      cases message <;> rfl
    obtain ⟨take_eq, taken_le, rest_eq⟩ := books.read_next unread_eq
    exact
      { unread_eq := by rw [Tape.read, pending_eq]; exact rest_eq
        taken_le := by rw [Tape.read, pending_eq]; exact taken_le
        read_eq := by
          rw [Tape.read, pending_eq, length_singleton, take_eq, books.read_eq, none_pending]
        publishers_eq := books.publishers_eq
        listening_eq := books.listening_eq.trans listens_eq.symm
        gone := books.gone
        ended := fun ended => absurd ended (Bool.eq_false_iff.mp unended) }
  · rename_i unread_eq
    split at received
    · rename_i nobody
      cases received
      have drop_eq := books.unread_eq.symm.trans unread_eq
      have allTaken := Nat.le_antisymm books.taken_le (drop_eq_nil_iff.mp drop_eq)
      exact
        { books with
          read_eq := (books.read_eq.trans none_pending).trans (append_nil _).symm
          listening_eq := books.listening_eq.trans listens_eq.symm
          ended := fun _ => ⟨books.publishers_eq.symm.trans nobody, allTaken⟩ }
    · cases received

/-- Whoever has read a failure, or the end, closes the list. -/
theorem close {token : Token} (closed : token.isOpen = false)
    (ended_eq : token.isEnded = tape.token.isEnded)
    (pending_eq : token.pending = tape.token.pending) :
    Books { tape with token } publishers channel.abandon :=
  { books with
    read_eq := by rw [books.read_eq, pending_eq]
    listening_eq := by rw [listens, closed]; rfl
    gone := fun _ => rfl
    ended := by rw [ended_eq]; exact books.ended }

theorem read_prefix : tape.items.map item ++ tape.token.pending <+: tape.log :=
  books.read_eq ▸ take_prefix _ _

end Books
end Tape
end Handoff
end ByNeed
