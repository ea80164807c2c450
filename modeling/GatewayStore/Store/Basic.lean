/-
  The store: keys with values under one revision counter, which every change raises by one. The
  latest changes stay in the history, so that a watch may start at any revision from the compaction
  floor on. Operations that fail give no new store.
-/
import GatewayStore.KeyMap
import GatewayStore.Store.Stream

namespace GatewayStore

/-- The value of a live key, with the revisions of its creation and of its last change. -/
structure Record where
  value : Bytes
  createRevision : Nat
  modRevision : Nat
deriving DecidableEq

/-- A live key as it is listed. -/
structure StoredKey where
  key : String
  value : Bytes
  createRevision : Nat
  modRevision : Nat
deriving DecidableEq

/-- The record of a key as it is listed. -/
def Record.listed (key : String) (r : Record) : StoredKey :=
  ⟨key, r.value, r.createRevision, r.modRevision⟩

/-- The live keys under a prefix, ascending, at a revision. -/
structure Listing where
  keys : List StoredKey
  revision : Nat
deriving DecidableEq

/-- What has to hold of a key for a put to happen. -/
inductive Condition where
  | absent
  | present
  | unchanged (revision : Nat)
deriving DecidableEq

namespace Condition

def holds : Condition → Option Record → Bool
  | .absent, r => r.isNone
  | .present, r => r.isSome
  | .unchanged _, none => false
  | .unchanged revision, some r => r.modRevision = revision

end Condition

/-- A store. `history` ascends by revision, and `floor` is the oldest revision at which a watch may
start. -/
structure Store where
  revision : Nat
  index : KeyMap Record
  history : List Event
  floor : Nat
  streams : List (Nat × Stream)
  nextStream : Nat
  isOffline : Bool
  isWatchOffline : Bool
  retention : Nat

namespace Store

/-- The number of revisions that the history keeps. -/
def defaultRetention : Nat := 10000

/-- An empty store whose history keeps this many revisions, but at least one. -/
def withRetention (retention : Nat) : Store :=
  ⟨0, .empty, [], 0, [], 0, false, false, max retention 1⟩

def empty : Store := withRetention defaultRetention

def size (s : Store) : Nat := s.index.size

def watcherCount (s : Store) : Nat := s.streams.countP fun e => e.2.isOpen

def checkOnline (s : Store) : Except Failure Unit :=
  if s.isOffline then .error (.storeUnavailable .offline) else .ok ()

/-- Changes every stream. -/
def mapStreams (s : Store) (f : Stream → Stream) : Store :=
  { s with streams := s.streams.map fun e => (e.1, f e.2) }

/-- Raises the floor to a revision, at most to the current one, and forgets the history below. -/
def compact (s : Store) (revision : Nat) : Store :=
  let floor := min revision s.revision
  if floor ≤ s.floor then s
  else { s with floor := floor, history := s.history.filter fun e => floor ≤ e.revision }

/-- How many events a compaction forgets. -/
def compactedCount (s : Store) (revision : Nat) : Nat :=
  s.history.length - (s.compact revision).history.length

/-- Prunes the history to the retention. -/
def prune (s : Store) : Store :=
  if s.retention < s.revision then s.compact (s.revision - s.retention + 1) else s

/-- Adds the event of the current revision to the history and to the streams. -/
def record (s : Store) (e : Event) : Store :=
  { s with history := s.history ++ [e] }.prune.mapStreams (·.offer e)

/-- The live keys under a prefix. As they follow each other in the index, they are read from the
prefix on until a key is met that does not start with it. -/
def keysUnder (s : Store) (keyPrefix : String) : List StoredKey :=
  ((s.index.entriesFrom keyPrefix).takeWhile fun e => Text.startsWith keyPrefix e.1).map fun e =>
    e.2.listed e.1

def range (s : Store) (keyPrefix : String) : Except Failure Listing := do
  s.checkOnline
  return ⟨s.keysUnder keyPrefix, s.revision⟩

def get (s : Store) (key : String) : Except Failure (Option StoredKey) := do
  s.checkOnline
  return (s.index.get? key).map (Record.listed key)

/-- The store after a put. -/
def written (s : Store) (key : String) (value : Bytes) : Store :=
  let revision := s.revision + 1
  let created := ((s.index.get? key).map Record.createRevision).getD revision
  { s with revision := revision, index := s.index.insert key ⟨value, created, revision⟩ }.record
    ⟨key, .put value, revision⟩

/-- The store after a delete. -/
def deleted (s : Store) (key : String) : Store :=
  let revision := s.revision + 1
  { s with revision := revision, index := s.index.erase key }.record ⟨key, .delete, revision⟩

/-- Writes a key if the condition holds. -/
def put (s : Store) (key : String) (value : Bytes) (condition : Option Condition) :
    Except Failure Store := do
  s.checkOnline
  if condition.all (·.holds (s.index.get? key)) then return s.written key value
  else throw (.preconditionFailed key)

/-- Deletes a key, which must exist. -/
def delete (s : Store) (key : String) : Except Failure Store := do
  s.checkOnline
  if s.index.contains key then return s.deleted key else throw (.notFound key)

/-- The events under a prefix from a revision on, as one batch if there are any. -/
def replay (s : Store) (keyPrefix : String) (start : Nat) : List Delivery :=
  match s.history.filter fun e => start ≤ e.revision && Text.startsWith keyPrefix e.key with
  | [] => []
  | events => [.batch events]

/-- The stream that a watch opens; a start of zero means the next revision. -/
def watchStream (s : Store) (keyPrefix : String) (start : Nat) : Stream :=
  let start := if start = 0 then s.revision + 1 else start
  if start < s.floor then ⟨keyPrefix, [.failed (.streamCompacted start s.floor)], false⟩
  else ⟨keyPrefix, s.replay keyPrefix start, true⟩

/-- Adds a stream under the next number. -/
def addStream (s : Store) (stream : Stream) : Store :=
  { s with streams := s.streams ++ [(s.nextStream, stream)], nextStream := s.nextStream + 1 }

/-- Opens a stream; its number is the `nextStream` before. -/
def watch (s : Store) (keyPrefix : String) (start : Nat) : Except Failure Store := do
  s.checkOnline
  if s.isWatchOffline then throw (.storeUnavailable .watchOffline)
  return s.addStream (s.watchStream keyPrefix start)

/-- Ends every open stream with a failure. -/
def disconnect (s : Store) (cause : Outage) : Store :=
  s.mapStreams (·.fail (.storeUnavailable cause))

/-- Starts or ends an outage. Its start ends every stream. -/
def setAvailable (s : Store) (available : Bool) : Store :=
  let s := { s with isOffline := !available }
  if available then s else s.disconnect .wentOffline

/-- Starts or ends an outage of watches alone. -/
def setWatchAvailable (s : Store) (available : Bool) : Store :=
  let s := { s with isWatchOffline := !available }
  if available then s else s.disconnect .watchWentOffline

def resetStreams (s : Store) : Store := s.disconnect .streamReset

def close (s : Store) : Store := s.disconnect .storeClosed

/-- The stream with a number. -/
def stream? (s : Store) (id : Nat) : Option Stream := s.streams.lookup id

/-- Takes the first item of a stream. -/
def receive (s : Store) (id : Nat) : Option Delivery × Store :=
  match s.stream? id with
  | none => (none, s)
  | some stream =>
    (stream.receive.1,
      { s with streams := s.streams.map fun e => if e.1 = id then (id, stream.receive.2) else e })

/-- Forgets a stream whose reader is gone. -/
def release (s : Store) (id : Nat) : Store :=
  { s with streams := s.streams.filter fun e => e.1 ≠ id }

end Store

end GatewayStore
