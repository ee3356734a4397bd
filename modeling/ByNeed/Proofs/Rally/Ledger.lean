import ByNeed.Daemon.Rally
import ByNeed.Proofs.Handoff.Tape
import Mathlib.Data.List.Perm.Basic

/-!
# The books of a rally

A ledger records the walker, a worker for each source that was met, and every message the channel
has accepted with the position of its source; without the positions it is the tape of the channel.
The books are kept if the channel says what the ledger says, and everything that happens to the
channel has its entry.  When the end is read, every position has been listed once.
-/

namespace ByNeed
namespace Rally

open List
open Handoff (Token Tape)

/-- Where the worker for a source is. -/
inductive Post where
  /-- Submitted, and in the hands of the walker. -/
  | unborn
  /-- Launched under a number, on a scheduler and with a backlog. -/
  | launched (scheduler number backlog : Nat)
  /-- At work under the number of a thread. -/
  | working (task : Nat)
  /-- Has sent what it had to send. -/
  | spoken (task : Nat)
  /-- No longer a publisher. -/
  | free
  deriving DecidableEq

namespace Post

/-- The worker has sent nothing yet. -/
def isSilent : Post → Bool
  | .unborn | .launched .. | .working _ => true
  | .spoken _ | .free => false

/-- The worker is a publisher. -/
def holds : Post → Bool
  | .free => false
  | _ => true

theorem holds_of_isSilent (post : Post) (silent : post.isSilent = true) : post.holds = true := by
  cases post with
  | free => cases silent
  | _ => rfl

end Post

/-- The worker for a source. -/
structure Hand where
  source : Thunk
  post : Post
  deriving DecidableEq

/-- Where the walker is. -/
inductive Walk where
  /-- Submitted, or about to be, by the thread that founds the rally. -/
  | unborn
  /-- Launched under a number. -/
  | launched (number : Nat)
  /-- On its way under the number of a thread. -/
  | walking (task : Nat)
  /-- Has become a publisher for the worker of the source it has met. -/
  | meeting (task : Nat) (source rest : Thunk)
  /-- Will walk no further, but is still a publisher. -/
  | leaving (task : Nat)
  /-- No longer a publisher. -/
  | free
  deriving DecidableEq

namespace Walk

/-- How many publishers the walker stands for. -/
def stake : Walk → Nat
  | .meeting .. => 2
  | .free => 0
  | _ => 1

/-- The walk is over. -/
def isOver : Walk → Bool
  | .leaving _ | .free => true
  | _ => false

end Walk

/-- A message that the channel has accepted, with its origin. -/
inductive Entry where
  /-- The source at a position was evaluated. -/
  | listed (position : Nat) (source : Thunk)
  /-- The source at a position failed. -/
  | failed (position : Nat) (error : Error)
  /-- The list of sources failed. -/
  | broken (error : Error)
  deriving DecidableEq

namespace Entry

def message : Entry → Message
  | .listed _ source => .item source
  | .failed _ error => .failure error
  | .broken error => .failure error

/-- The position of the source that the message came from. -/
def position? : Entry → Option Nat
  | .listed position _ => some position
  | .failed position _ => some position
  | .broken _ => none

end Entry

/-- Everything there is to know of a rally. -/
structure Ledger where
  /-- The thread that founds the rally, while it does. -/
  founder : Option Nat
  walk : Walk
  /-- Where the list of sources is walked on. -/
  cursor : Thunk
  /-- The workers, by the positions of their sources. -/
  hands : List Hand
  /-- The messages accepted, oldest first. -/
  log : List Entry
  /-- How many of them were read. -/
  taken : Nat
  /-- The merged list. -/
  first : Thunk
  /-- The elements of the merged list. -/
  items : List Thunk
  /-- The last cell of the merged list. -/
  last : Thunk
  token : Token

namespace Ledger

variable {ledger : Ledger} {channel : Channel}
variable {position : Nat}

/-- The positions that messages came from. -/
def positions (ledger : Ledger) : List Nat :=
  ledger.log.filterMap Entry.position?

/-- How many publishers there are. -/
def publishers (ledger : Ledger) : Nat :=
  ledger.walk.stake + ledger.hands.countP fun hand => hand.post.holds

/-- The tape of the channel. -/
def tape (ledger : Ledger) : Tape where
  log := ledger.log.map Entry.message
  taken := ledger.taken
  items := ledger.items
  last := ledger.last
  token := ledger.token
  dropped := false

/-- Another tape of the same messages takes the place of the tape. -/
def withTape (ledger : Ledger) (founder : Option Nat) (first : Thunk) (tape : Tape) : Ledger :=
  { ledger with
    founder, first
    taken := tape.taken, items := tape.items, last := tape.last, token := tape.token }

/-- A channel is as the ledger says. -/
structure Books (ledger : Ledger) (channel : Channel) : Prop where
  tape : ledger.tape.Books ledger.publishers channel
  nodup : ledger.positions.Nodup
  position_lt : ∀ position ∈ ledger.positions, position < ledger.hands.length
  silent : ∀ position hand, ledger.hands[position]? = some hand → hand.post.isSilent = true →
    position ∉ ledger.positions
  heard : ledger.token.isFailed = false →
    ∀ position hand, ledger.hands[position]? = some hand → hand.post.isSilent = false →
      position ∈ ledger.positions

/-- Put a worker in another place. -/
def assign (ledger : Ledger) (position : Nat) (hand : Hand) : Ledger :=
  { ledger with hands := ledger.hands.set position hand }

@[simp] theorem length_hands_assign (ledger : Ledger) (position : Nat) (hand : Hand) :
    (ledger.assign position hand).hands.length = ledger.hands.length := by
  simp [assign]

@[simp] theorem positions_assign (ledger : Ledger) (position : Nat) (hand : Hand) :
    (ledger.assign position hand).positions = ledger.positions := rfl

/-- Record a message, if the list is still read. -/
def record (ledger : Ledger) (entry : Entry) : Ledger :=
  { ledger with log := if ledger.token.isOpen then ledger.log ++ [entry] else ledger.log }

theorem record_of_isOpen (entry : Entry) (isOpen : ledger.token.isOpen = true) :
    ledger.record entry = { ledger with log := ledger.log ++ [entry] } := by
  simp [record, isOpen]

theorem record_of_not_isOpen (entry : Entry) (gone : ledger.token.isOpen = false) :
    ledger.record entry = ledger := by
  simp [record, gone]

theorem tape_record (ledger : Ledger) (entry : Entry) :
    (ledger.record entry).tape = ledger.tape.record entry.message := by
  cases isOpen : ledger.token.isOpen <;>
    simp [record, tape, Tape.record, Tape.listens, isOpen]

theorem positions_record (entry : Entry) (isOpen : ledger.token.isOpen = true) :
    (ledger.record entry).positions = ledger.positions ++ entry.position?.toList := by
  rw [record_of_isOpen entry isOpen]
  cases found : entry.position? <;> simp [positions, found]

theorem publishers_assign (found : ledger.hands[position]? = some former) (hand : Hand) :
    (ledger.assign position hand).publishers + (if former.post.holds then 1 else 0) =
      ledger.publishers + (if hand.post.holds then 1 else 0) := by
  obtain ⟨inBounds, rfl⟩ := List.getElem?_eq_some_iff.mp found
  have set := (set_perm_cons_eraseIdx inBounds hand).countP_eq fun hand => hand.post.holds
  have former := (getElem_cons_eraseIdx_perm inBounds).countP_eq fun hand => hand.post.holds
  rw [countP_cons] at set former
  simp only [publishers, assign]
  omega

theorem getElem?_append_singleton (present : (elements ++ [element])[position]? = some found) :
    (position = elements.length ∧ found = element) ∨ elements[position]? = some found := by
  rcases Nat.lt_or_ge position elements.length with inBounds | outOfBounds
  · exact .inr (by rwa [getElem?_append_left inBounds] at present)
  · rw [getElem?_append_right outOfBounds, getElem?_singleton] at present
    split at present
    · cases present
      exact .inl ⟨by omega, rfl⟩
    · cases present

theorem getElem?_assign (present : (ledger.assign position hand).hands[other]? = some found) :
    (other = position ∧ found = hand) ∨ (other ≠ position ∧ ledger.hands[other]? = some found) := by
  simp only [assign, getElem?_set] at present
  split at present
  · rename_i same
    split at present
    · cases present
      exact .inl ⟨same.symm, rfl⟩
    · cases present
  · rename_i ne
    exact .inr ⟨Ne.symm ne, present⟩

namespace Books

variable (books : ledger.Books channel)
variable {task position : Nat} {walk : Walk} {source : Thunk} {former hand : Hand} {state : Channel}

include books

/-- Where the walker is counts only by its stake. -/
theorem setWalk (stake : walk.stake = ledger.walk.stake) : Books { ledger with walk } channel :=
  { books with
    tape := by
      rw [publishers, stake]
      exact books.tape }

/-- The walker becomes a publisher for the worker of a source. -/
theorem retain (stake : walk.stake = ledger.walk.stake + 1) (staying : 0 < ledger.walk.stake) :
    Books { ledger with walk } channel.retain :=
  { books with
    tape := by
      rw [publishers, stake, Nat.add_right_comm]
      exact books.tape.retain (Nat.add_pos_left staying _) }

/-- The walker is one publisher less. -/
theorem releaseWalk (stake : ledger.walk.stake = walk.stake + 1) :
    Books { ledger with walk } channel.release :=
  { books with
    tape := by
      have publishers_eq : ledger.publishers = publishers { ledger with walk } + 1 := by
        rw [publishers, publishers, stake, Nat.add_right_comm]
      have tape := books.tape.release (publishers_eq ▸ Nat.succ_pos _)
      rw [publishers_eq] at tape
      exact tape }

/-- The walker hands a publisher over to a new worker. -/
theorem hire {cursor : Thunk} (stake : ledger.walk.stake = walk.stake + 1) :
    Books { ledger with walk, cursor, hands := ledger.hands ++ [⟨source, .unborn⟩] } channel :=
  { books with
    tape := by
      have publishers_eq : ledger.publishers = publishers
          { ledger with walk, cursor, hands := ledger.hands ++ [⟨source, .unborn⟩] } := by
        simp only [publishers, stake, countP_append, countP_singleton, Post.holds, if_true]
        omega
      rw [← publishers_eq]
      exact books.tape
    position_lt := fun position mem => by
      rw [length_append]
      exact Nat.lt_of_lt_of_le (books.position_lt position mem) (Nat.le_add_right _ _)
    silent := fun position hand found isSilent => by
      rcases getElem?_append_singleton found with ⟨rfl, -⟩ | found
      · exact fun mem => absurd (books.position_lt _ mem) (Nat.lt_irrefl _)
      · exact books.silent position hand found isSilent
    heard := fun isOpen position hand found isSilent => by
      rcases getElem?_append_singleton found with ⟨-, rfl⟩ | found
      · cases isSilent
      · exact books.heard isOpen position hand found isSilent }

/-- A worker is somewhere else, and has sent nothing meanwhile that the list can show. -/
theorem reassign (found : ledger.hands[position]? = some former)
    (silent : hand.post.isSilent = true → former.post.isSilent = true)
    (heard : ledger.token.isFailed = false → hand.post.isSilent = false →
      former.post.isSilent = false)
    (tape : ledger.tape.Books (ledger.assign position hand).publishers state) :
    (ledger.assign position hand).Books state where
  tape := tape
  nodup := books.nodup
  position_lt other mem := by
    rw [length_hands_assign]
    exact books.position_lt other mem
  silent other otherHand present isSilent := by
    rcases getElem?_assign present with ⟨rfl, rfl⟩ | ⟨-, present⟩
    · exact books.silent other former found (silent isSilent)
    · exact books.silent other otherHand present isSilent
  heard notFailed other otherHand present isSilent := by
    rcases getElem?_assign present with ⟨rfl, rfl⟩ | ⟨-, present⟩
    · exact books.heard notFailed other former found (heard notFailed isSilent)
    · exact books.heard notFailed other otherHand present isSilent

/-- A worker that has sent nothing is somewhere else. -/
theorem assign (found : ledger.hands[position]? = some former)
    (silent : former.post.isSilent = true) (stillSilent : hand.post.isSilent = true) :
    (ledger.assign position hand).Books channel := by
  have publishers_eq := publishers_assign found hand
  rw [former.post.holds_of_isSilent silent, hand.post.holds_of_isSilent stillSilent]
    at publishers_eq
  refine books.reassign found (fun _ => silent) (fun _ spoken => ?_) ?_
  · rw [stillSilent] at spoken
    cases spoken
  · rw [Nat.add_right_cancel publishers_eq]
    exact books.tape

/-- A worker that has sent is no longer a publisher. -/
theorem free (found : ledger.hands[position]? = some ⟨source, .spoken task⟩) :
    (ledger.assign position ⟨source, .free⟩).Books channel.release := by
  have publishers_eq : (ledger.assign position ⟨source, .free⟩).publishers + 1 =
      ledger.publishers := publishers_assign found ⟨source, .free⟩
  have tape := books.tape.release (publishers_eq ▸ Nat.succ_pos _)
  rw [← publishers_eq] at tape
  exact books.reassign found (fun silent => by cases silent) (fun _ _ => rfl) tape

/-- The list of sources fails, and the walker says so. -/
theorem fail (error : Error) (staying : 0 < ledger.walk.stake) :
    (ledger.record (.broken error)).Books (channel.send (.failure error)).2 := by
  have positions_eq : (ledger.record (.broken error)).positions = ledger.positions := by
    cases isOpen : ledger.token.isOpen with
    | true => rw [positions_record _ isOpen]; exact append_nil _
    | false => rw [record_of_not_isOpen _ isOpen]
  exact
    { tape := by
        rw [tape_record]
        exact books.tape.record (Nat.add_pos_left staying _) (.failure error)
      nodup := by rw [positions_eq]; exact books.nodup
      position_lt := by rw [positions_eq]; exact books.position_lt
      silent := by rw [positions_eq]; exact books.silent
      heard := by rw [positions_eq]; exact books.heard }

/-- A worker sends what it has to send. -/
theorem speak (found : ledger.hands[position]? = some ⟨source, .working task⟩)
    (position_eq : entry.position? = some position) :
    ((ledger.record entry).assign position ⟨source, .spoken task⟩).Books
      (channel.send entry.message).2 := by
  have publishers_eq : (ledger.assign position ⟨source, .spoken task⟩).publishers =
      ledger.publishers := Nat.add_right_cancel (publishers_assign found ⟨source, .spoken task⟩)
  have present : 0 < ledger.publishers :=
    Nat.add_pos_right _ (countP_pos_iff.mpr ⟨_, mem_of_getElem? found, rfl⟩)
  have tape : (ledger.record entry).tape.Books
      (ledger.assign position ⟨source, .spoken task⟩).publishers
      (channel.send entry.message).2 := by
    rw [publishers_eq, tape_record]
    exact books.tape.record present entry.message
  cases isOpen : ledger.token.isOpen with
  | false =>
    -- The list is closed, but not at its end: there is a publisher.
    have isFailed := Token.isFailed_of_not_isOpen isOpen (books.tape.not_ended present)
    rw [record_of_not_isOpen _ isOpen] at tape ⊢
    refine books.reassign found (fun silent => by cases silent) (fun notFailed => ?_) tape
    rw [isFailed] at notFailed
    cases notFailed
  | true =>
    have unheard := books.silent position _ found rfl
    have positions_eq : ((ledger.record entry).assign position ⟨source, .spoken task⟩).positions =
        ledger.positions ++ [position] := by
      rw [positions_assign, positions_record _ isOpen, position_eq, Option.toList_some]
    exact
      { tape := tape
        nodup := by
          rw [positions_eq]
          exact (perm_append_singleton position _).nodup_iff.mpr
            (nodup_cons.mpr ⟨unheard, books.nodup⟩)
        position_lt := by
          rw [positions_eq, length_hands_assign]
          intro other mem
          rcases mem_append.mp mem with mem | mem
          · exact books.position_lt other mem
          · rw [mem_singleton.mp mem]
            exact (List.getElem?_eq_some_iff.mp found).1
        silent := fun other hand present isSilent => by
          rw [positions_eq]
          rcases getElem?_assign present with ⟨-, rfl⟩ | ⟨ne, present⟩
          · cases isSilent
          · have unheard := books.silent other hand present isSilent
            simp [unheard, ne]
        heard := fun notFailed other hand present isSilent => by
          rw [positions_eq]
          rcases getElem?_assign present with ⟨rfl, -⟩ | ⟨-, present⟩
          · simp
          · exact mem_append_left _ (books.heard notFailed other hand present isSilent) }

/-- When the end was read, all publishers are gone, and every position was listed. -/
theorem complete (ended : ledger.token.isEnded = true) :
    ledger.walk = .free ∧ ledger.taken = ledger.log.length ∧
      ledger.positions.Perm (List.range ledger.hands.length) := by
  obtain ⟨nobody, allTaken⟩ := books.tape.ended ended
  obtain ⟨noWalker, noWorker⟩ := Nat.add_eq_zero_iff.mp nobody
  refine ⟨?_, allTaken.trans (length_map _), ?_⟩
  · cases found : ledger.walk <;> simp [found, Walk.stake] at noWalker ⊢
  rw [perm_ext_iff_of_nodup books.nodup nodup_range]
  intro position
  rw [mem_range]
  refine ⟨books.position_lt position, fun inBounds => ?_⟩
  have isFree := List.countP_eq_zero.mp noWorker _ (getElem_mem inBounds)
  refine books.heard (Token.not_isFailed_of_isEnded ended) position _
    (getElem?_eq_getElem inBounds) ?_
  cases isSilent : (ledger.hands[position]).post.isSilent with
  | false => rfl
  | true => exact absurd (Post.holds_of_isSilent _ isSilent) isFree

/-- The merged list is read on. -/
theorem renew {later : Tape} {first : Thunk} {founder : Option Nat}
    (wasOpen : ledger.token.isOpen = true) (log_eq : later.log = ledger.tape.log)
    (dropped_eq : later.dropped = ledger.tape.dropped)
    (tape : later.Books ledger.publishers state) :
    (ledger.withTape founder first later).Books state :=
  { books with
    tape := by
      have tape_eq : (ledger.withTape founder first later).tape = later := by
        cases later
        cases log_eq
        cases dropped_eq
        rfl
      rw [tape_eq]
      exact tape
    heard := fun _ => books.heard (Token.not_isFailed_of_isOpen wasOpen) }

end Books
end Ledger
end Rally
end ByNeed
