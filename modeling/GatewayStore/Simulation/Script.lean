/-
  A store whose answers follow a script: calls can be delayed or made to fail, other writers can come
  in between, and streams can be fed by hand. Every call is logged.
-/
import GatewayStore.Store.Step

namespace GatewayStore

/-- What happens to a call before the store sees it: a delay, then perhaps a failure. -/
structure Fault where
  delay : Nat
  failure : Option Failure
deriving DecidableEq

def Fault.none : Fault := ⟨0, Option.none⟩

/-- A fault that waits for a call, at one key or at any. -/
structure PlannedFault where
  call : String
  key : Option String
  fault : Fault
deriving DecidableEq

/-- Whether a planned fault is for a call at a key, or at any. -/
def PlannedFault.fits (p : PlannedFault) (call : String) (key : Option String) : Bool :=
  p.call = call && p.key = key

/-- A logged call. -/
structure LoggedCall where
  time : Nat
  call : String
  key : String
deriving DecidableEq

/-- Where the items of a stream come from. -/
inductive Channel where
  | ofStore (stream : Nat)
  | fed (stream : Stream)
deriving DecidableEq

/-- A scripted store. `refusal` stands for a store that cannot be reached, and `isLogged` is off for
a store that only the program itself knows. -/
structure Script where
  store : Store
  faults : List PlannedFault
  interventions : List (List StoreStep)
  isManual : Bool
  channels : List (Nat × Channel)
  nextChannel : Nat
  log : List LoggedCall
  isLogged : Bool
  refusal : Option Failure

/-- How a call is written in the log. -/
def Request.logText : Request → String
  | .put _ _ none => "put any"
  | .put _ _ (some .absent) => "put MustNotExist"
  | .put _ _ (some .present) => "put MustExist"
  | .put _ _ (some (.unchanged revision)) => "put ModRevision(" ++ toString revision ++ ")"
  | .watch _ start => "watch " ++ toString start
  | r => r.name

/-- What a fault does to a call: closing can be delayed, but it does not fail. -/
def Fault.onto (f : Fault) : Request → Fault
  | .close => { f with failure := Option.none }
  | _ => f

namespace Script

def ofStore (store : Store) : Script := ⟨store, [], [], false, [], 0, [], true, none⟩

/-- A store that no script reaches. -/
def embedded : Script := { ofStore .empty with isLogged := false }

/-- A store that answers no call. -/
def unreachable (cause : Failure) : Script := { embedded with refusal := some cause }

/-- Takes the first fault for a call: one for its key before one for any key. -/
def takeFault (s : Script) (r : Request) : Fault × Script :=
  let atKey := s.faults.find? (·.fits r.name (some r.subject))
  match atKey.or (s.faults.find? (·.fits r.name none)) with
  | none => (.none, s)
  | some p => (p.fault.onto r, { s with faults := s.faults.erase p })

/-- Logs a call and takes the fault that is planned for it. -/
def beginCall (s : Script) (time : Nat) (r : Request) : Fault × Script :=
  let s := if s.isLogged then { s with log := s.log ++ [⟨time, r.logText, r.subject⟩] } else s
  s.takeFault r

/-- Lets another writer in before a conditional put. -/
def intervene (s : Script) (r : Request) : Script :=
  if r.isConditional then
    match s.interventions with
    | [] => s
    | steps :: rest => { s with store := s.store.runAll steps, interventions := rest }
  else s

/-- Adds a channel; its number is the `nextChannel` before. -/
def addChannel (s : Script) (channel : Channel) : Script :=
  { s with channels := s.channels ++ [(s.nextChannel, channel)], nextChannel := s.nextChannel + 1 }

/-- Passes a call on to the store. The number of a watch is that of its channel. -/
def pass (s : Script) : (r : Request) → Except Failure r.Answer × Script
  | .watch keyPrefix start =>
    if s.isManual then (.ok s.nextChannel, s.addChannel (.fed (.opened keyPrefix)))
    else
      let (answer, store) := s.store.call (.watch keyPrefix start)
      let s := { s with store := store }
      match answer with
      | .error cause => (.error cause, s)
      | .ok stream => (.ok s.nextChannel, s.addChannel (.ofStore stream))
  | r =>
    let (answer, store) := s.store.call r
    (answer, { s with store := store })

/-- Answers a call after its fault. -/
def answer (s : Script) (r : Request) : Except Failure r.Answer × Script :=
  match s.refusal with
  | some cause => (.error cause, s)
  | none => (s.intervene r).pass r

/-- The stream behind a channel. -/
def stream? (s : Script) (id : Nat) : Option Stream :=
  match s.channels.lookup id with
  | none => none
  | some (.fed stream) => some stream
  | some (.ofStore stream) => s.store.stream? stream

/-- Whether the reader of a channel would get something. -/
def isReady (s : Script) (id : Nat) : Bool := (s.stream? id).any Stream.isReady

/-- Takes the first item of a channel. -/
def receive (s : Script) (id : Nat) : Option Delivery × Script :=
  match s.channels.lookup id with
  | none => (none, s)
  | some (.ofStore stream) =>
    let (item, store) := s.store.receive stream
    (item, { s with store := store })
  | some (.fed stream) =>
    let (item, stream) := stream.receive
    (item, { s with
      channels := s.channels.map fun e => if e.1 = id then (id, .fed stream) else e })

/-- Forgets a channel whose reader is gone. -/
def release (s : Script) (id : Nat) : Script :=
  let store := match s.channels.lookup id with
    | some (.ofStore stream) => s.store.release stream
    | _ => s.store
  { s with store := store, channels := s.channels.filter fun e => e.1 ≠ id }

/-- Whether a channel is fed by hand, still open, and was opened with a prefix. -/
def takesFeed (keyPrefix : String) : Channel → Bool
  | .fed stream => stream.isOpen && stream.keyPrefix = keyPrefix
  | .ofStore _ => false

/-- Changes the streams that are fed by hand. -/
def mapFed (s : Script) (f : Stream → Stream) : Script :=
  { s with channels := s.channels.map fun e => match e.2 with
      | .fed stream => (e.1, .fed (f stream))
      | .ofStore stream => (e.1, .ofStore stream) }

/-- Feeds an item to every hand-fed stream that was opened with a prefix; gives their number. -/
def feed (s : Script) (keyPrefix : String) (item : Delivery) : Nat × Script :=
  (s.channels.countP fun e => takesFeed keyPrefix e.2,
    s.mapFed fun stream => if stream.keyPrefix = keyPrefix then stream.send item else stream)

/-- Ends every hand-fed stream. -/
def endFeeds (s : Script) : Script := s.mapFed Stream.close

def plan (s : Script) (faults : List PlannedFault) : Script := { s with faults := s.faults ++ faults }

/-- The calls since the last reading, by time and key. -/
def takeLog (s : Script) : List LoggedCall × Script :=
  let before (a b : LoggedCall) : Bool :=
    a.time < b.time || (a.time = b.time && (a.key < b.key || a.key = b.key))
  (s.log.mergeSort before, { s with log := [] })

end Script

end GatewayStore
