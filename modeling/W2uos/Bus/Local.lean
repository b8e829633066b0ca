import Mathlib.Data.Finmap
import W2uos.System.Interleaving

/-!
# The local bus

`LocalBus` keeps, for every subject, the senders of the channels subscribed to it.  `publish` takes
the read lock, sends the message to one channel after the other, and releases the lock; a send
waits while the channel is full, and fails without further effect when the receiver is gone.
`subscribe` takes the write lock, so it happens between publishes, in one step.

Publisher tasks and receivers are numbers.  In a channel every message stands with the task that
sent it, which the receiver does not see; what a receiver has taken out is kept beside its queue.
Both are there for the statements about delivery only.

* `Channel`, `Call`, `LocalBus` : channels, publish calls in progress, and the bus;
* `localBus` : publishers, subscribers and receivers of one bus, as an interleaving system.
-/

namespace W2uos

/-- The capacity of a channel. -/
def channelCapacity : ℕ := 1024

/-- A message in a channel, and the task that sent it. -/
structure Sent (μ : Type) where
  sender : ℕ
  msg : μ
  deriving DecidableEq

/-- The channel of a subscription. -/
structure Channel (μ : Type) where
  subject : String
  /-- The receiver has not been dropped. -/
  alive : Bool
  /-- The messages in the channel, oldest first. -/
  queue : List (Sent μ)
  /-- The messages the receiver has taken out, oldest first. -/
  received : List (Sent μ)
  deriving DecidableEq

/-- A call of `publish` that holds the read lock. -/
structure Call (μ : Type) where
  subject : String
  msg : μ
  /-- The subscribers still to be sent the message. -/
  remaining : List ℕ
  deriving DecidableEq

/-- The bus with its channels and the calls in progress. -/
structure LocalBus (μ : Type) where
  /-- The subscribers of a subject, in the order of their subscription. -/
  subscribers : String → List ℕ
  channels : Finmap fun _ : ℕ => Channel μ
  /-- The number of the next receiver. -/
  next : ℕ
  /-- The call of each task that is in one. -/
  calls : Finmap fun _ : ℕ => Call μ

/-- The steps of publisher tasks, subscribers and receivers. -/
inductive BusAction (μ : Type)
  /-- A task calls `publish` and gets the read lock. -/
  | publish (task : ℕ) (subject : String) (msg : μ)
  /-- The next send of the call of a task, or its failure. -/
  | send (task : ℕ)
  /-- The call of a task returns, and releases the lock. -/
  | finish (task : ℕ)
  /-- Somebody subscribes. -/
  | subscribe (subject : String)
  /-- A receiver takes a message out of its channel. -/
  | recv (receiver : ℕ)
  /-- A receiver is dropped. -/
  | drop (receiver : ℕ)

namespace LocalBus

variable {μ : Type}

/-- `LocalBus::new`. -/
def new : LocalBus μ where
  subscribers _ := []
  channels := ∅
  next := 0
  calls := ∅

/-- Start a call of `publish`. -/
def publish (s : LocalBus μ) (task : ℕ) (subject : String) (msg : μ) : Option (LocalBus μ) :=
  match s.calls.lookup task with
  | some _ => none
  | none => some
    { s with calls := s.calls.insert task ⟨subject, msg, s.subscribers subject⟩ }

/-- The next send of a call: it waits for room, and an error is ignored. -/
def send (s : LocalBus μ) (task : ℕ) : Option (LocalBus μ) :=
  match s.calls.lookup task with
  | none => none
  | some call =>
    match call.remaining with
    | [] => none
    | r :: rs =>
      let calls := s.calls.insert task { call with remaining := rs }
      match s.channels.lookup r with
      | none => none
      | some ch =>
        if ch.alive then
          if ch.queue.length < channelCapacity then
            some { s with
              calls := calls
              channels := s.channels.insert r
                { ch with queue := ch.queue ++ [⟨task, call.msg⟩] } }
          else none
        else some { s with calls := calls }

/-- Return from a call. -/
def finish (s : LocalBus μ) (task : ℕ) : Option (LocalBus μ) :=
  match s.calls.lookup task with
  | some ⟨_, _, []⟩ => some { s with calls := s.calls.erase task }
  | _ => none

/-- Subscribe, when nobody holds the lock. -/
def subscribe (s : LocalBus μ) (subject : String) : Option (LocalBus μ) :=
  if s.calls.keys = ∅ then
    some { s with
      subscribers := Function.update s.subscribers subject (s.subscribers subject ++ [s.next])
      channels := s.channels.insert s.next ⟨subject, true, [], []⟩
      next := s.next + 1 }
  else none

/-- Take a message out of a channel. -/
def recv (s : LocalBus μ) (r : ℕ) : Option (LocalBus μ) :=
  match s.channels.lookup r with
  | some ⟨subject, true, m :: queue, received⟩ => some
    { s with channels := s.channels.insert r ⟨subject, true, queue, received ++ [m]⟩ }
  | _ => none

/-- Drop a receiver with the messages in its channel. -/
def drop (s : LocalBus μ) (r : ℕ) : Option (LocalBus μ) :=
  match s.channels.lookup r with
  | some ⟨subject, true, _, received⟩ => some
    { s with channels := s.channels.insert r ⟨subject, false, [], received⟩ }
  | _ => none

end LocalBus

/-- Publishers, subscribers and receivers of one bus. -/
def localBus (μ : Type) : Interleaving (LocalBus μ) (BusAction μ) where
  step s
    | .publish task subject msg => s.publish task subject msg
    | .send task => s.send task
    | .finish task => s.finish task
    | .subscribe subject => s.subscribe subject
    | .recv r => s.recv r
    | .drop r => s.drop r

end W2uos
