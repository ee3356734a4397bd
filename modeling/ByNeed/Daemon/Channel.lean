import ByNeed.Arguments
import ByNeed.Error

/-!
# Handoff channels

A handoff channel carries thunks from producers to the reader of a lazy list.
It holds a bounded number of unread messages in the order in which they were
sent.  Its list ends when the last publisher is gone and all has been read, or in
an error when a failure is read.
-/

namespace ByNeed

/-- What a producer sends. -/
inductive Message where
  /-- The next element of the list. -/
  | item (element : Thunk)
  /-- The error that ends the list. -/
  | failure (error : Error)
  deriving DecidableEq, Repr

structure Channel where
  /-- How many messages may be unread. -/
  capacity : Nat
  /-- Unread messages, oldest first. -/
  unread : List Message := []
  /-- How many publishers can still send. -/
  publishers : Nat := 1
  /-- Whether the list can still be read. -/
  listening : Bool := true
  /-- Whether a message was refused because the list is gone. -/
  closed : Bool := false
  deriving Repr

namespace Channel

/-- Whether as many messages are unread as the channel may hold. -/
def isFull (channel : Channel) : Bool :=
  decide (channel.capacity ≤ channel.unread.length)

/-- Whether a daemon that sends has to wait.  A channel of capacity zero would hand over a
message only to a reader that waits for it; here it holds one message, so a daemon may be one
message ahead of its reader. -/
def mustWait (channel : Channel) : Bool :=
  channel.listening && decide (max 1 channel.capacity ≤ channel.unread.length)

/-- Send a message, or find that the list is gone. -/
def send (channel : Channel) (message : Message) : Bool × Channel :=
  if channel.listening then
    (true, { channel with unread := channel.unread ++ [message] })
  else
    (false, { channel with closed := true })

theorem send_of_listening (channel : Channel) (message : Message)
    (listening : channel.listening = true) :
    channel.send message =
      (true, { channel with unread := channel.unread ++ [message] }) := by
  simp [send, listening]

theorem send_of_gone (channel : Channel) (message : Message) (gone : channel.listening = false) :
    channel.send message = (false, { channel with closed := true }) := by
  simp [send, gone]

/-- What reading a channel gives. -/
inductive Reading where
  | item (element : Thunk)
  | failure (error : Error)
  | ended
  deriving DecidableEq, Repr

def Reading.ofMessage : Message → Reading
  | .item element => .item element
  | .failure error => .failure error

/-- Read the next message.  There is nothing to read while all has been read and a publisher
may still send. -/
def receive? (channel : Channel) : Option (Reading × Channel) :=
  match channel.unread with
  | message :: rest => some (.ofMessage message, { channel with unread := rest })
  | [] => if channel.publishers = 0 then some (.ended, channel) else none

/-- There is nothing to read exactly while all has been read and more may come. -/
theorem receive?_eq_none_iff (channel : Channel) :
    channel.receive? = none ↔ channel.unread = [] ∧ channel.publishers ≠ 0 := by
  unfold receive?
  split <;> simp_all

def retain (channel : Channel) : Channel :=
  { channel with publishers := channel.publishers + 1 }

def release (channel : Channel) : Channel :=
  { channel with publishers := channel.publishers - 1 }

/-- The list is dropped, or will be read no further. -/
def abandon (channel : Channel) : Channel :=
  { channel with listening := false }

def outline (channel : Channel) : String :=
  "Publisher \x7b pending: " ++ toString channel.unread.length ++
    ", closed: " ++ (if channel.closed then "true" else "false") ++ " \x7d"

end Channel
end ByNeed
