/-
  Subscriptions to changes. A stream is a queue that its writer fills and closes and its reader
  empties; what was queued before the end is still delivered.
-/
import GatewayStore.Failure
import GatewayStore.Text.Bytes

namespace GatewayStore

/-- What happened to a key. A put without a value says that the key was written, but not what. -/
inductive Change where
  | put (value : Bytes)
  | blindPut
  | delete
deriving DecidableEq

/-- A change of one key at a revision of the store. -/
structure Event where
  key : String
  change : Change
  revision : Nat
deriving DecidableEq

def Event.isDelete (e : Event) : Bool := e.change = .delete

/-- What a stream carries: events in order of revision, or the failure that ends it. -/
inductive Delivery where
  | batch (events : List Event)
  | failed (cause : Failure)
deriving DecidableEq

/-- A subscription to the keys under a prefix; `isOpen` tells whether more may be queued. -/
structure Stream where
  keyPrefix : String
  queue : List Delivery
  isOpen : Bool
deriving DecidableEq

namespace Stream

/-- An open stream on which nothing is queued. -/
def opened (keyPrefix : String) : Stream := ⟨keyPrefix, [], true⟩

/-- Queues an item on an open stream. -/
def send (s : Stream) (d : Delivery) : Stream :=
  if s.isOpen then { s with queue := s.queue ++ [d] } else s

/-- Ends the stream after what is queued. -/
def close (s : Stream) : Stream := { s with isOpen := false }

/-- Ends the stream with a failure. -/
def fail (s : Stream) (cause : Failure) : Stream := (s.send (.failed cause)).close

/-- Queues an event under the stream's prefix. -/
def offer (s : Stream) (e : Event) : Stream :=
  if Text.startsWith s.keyPrefix e.key then s.send (.batch [e]) else s

/-- Whether the reader would get something: an item or the end. -/
def isReady (s : Stream) : Bool := !s.queue.isEmpty || !s.isOpen

/-- Takes the first item; none if nothing is queued. -/
def receive (s : Stream) : Option Delivery × Stream :=
  match s.queue with
  | [] => (none, s)
  | d :: rest => (some d, { s with queue := rest })

@[simp]
theorem keyPrefix_send (s : Stream) (d : Delivery) : (s.send d).keyPrefix = s.keyPrefix := by
  unfold send
  split <;> rfl

@[simp]
theorem keyPrefix_offer (s : Stream) (e : Event) : (s.offer e).keyPrefix = s.keyPrefix := by
  unfold offer
  split <;> simp

@[simp]
theorem isOpen_send (s : Stream) (d : Delivery) : (s.send d).isOpen = s.isOpen := by
  unfold send
  split <;> rfl

@[simp]
theorem isOpen_offer (s : Stream) (e : Event) : (s.offer e).isOpen = s.isOpen := by
  unfold offer
  split <;> simp

theorem send_of_closed {s : Stream} (h : s.isOpen = false) (d : Delivery) : s.send d = s := by
  simp [send, h]

theorem queue_send {s : Stream} (h : s.isOpen = true) (d : Delivery) :
    (s.send d).queue = s.queue ++ [d] := by
  simp [send, h]

theorem queue_offer (s : Stream) (e : Event) : (s.offer e).queue =
    s.queue ++ if s.isOpen && Text.startsWith s.keyPrefix e.key then [.batch [e]] else [] := by
  unfold offer send
  cases s.isOpen <;> cases Text.startsWith s.keyPrefix e.key <;> simp

@[simp]
theorem keyPrefix_fail (s : Stream) (cause : Failure) : (s.fail cause).keyPrefix = s.keyPrefix :=
  s.keyPrefix_send (.failed cause)

@[simp]
theorem isOpen_fail (s : Stream) (cause : Failure) : (s.fail cause).isOpen = false := rfl

theorem queue_fail (s : Stream) (cause : Failure) :
    (s.fail cause).queue = s.queue ++ if s.isOpen then [.failed cause] else [] := by
  unfold fail close send
  cases s.isOpen <;> simp

end Stream

end GatewayStore
