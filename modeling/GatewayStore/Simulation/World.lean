/-
  Running a hub over a scripted store in virtual time. Time stands still while anything can go on, and
  then jumps to the next thing that is due. The one who asks goes first; the watch loops follow, those
  with something to read before those with something due.
-/
import GatewayStore.Hub.Basic
import GatewayStore.Simulation.Script

namespace GatewayStore

/-- The state of a simulation. `now` is the virtual time in milliseconds and `wall` the wall clock,
which stands still by itself. -/
structure World where
  now : Nat
  wall : WallTime
  script : Script
  client : Client
  hub : Option Hub
  nextOrder : Nat

/-- A limit on the time of a call, and the failure when it is over. -/
structure Deadline where
  after : Nat
  failure : Failure
deriving DecidableEq

/-- When a call is due and what becomes of it: the deadlines are given from the inside out, and one
that comes later than another or no earlier than the answer has no effect. -/
def settleCall (fault : Fault) (deadlines : List Deadline) : Nat × Outcome :=
  let answered : Nat × Outcome :=
    (fault.delay, match fault.failure with
      | none => .perform
      | some cause => .fail cause)
  deadlines.foldl (fun earliest d =>
    if d.after < earliest.1 then (d.after, .fail d.failure) else earliest) answered

namespace Client

/-- The deadline of a call; closing has none. -/
def deadlines (c : Client) : Request → List Deadline
  | .close => []
  | r => [⟨c.timeout, .storeUnavailable (.callTimedOut r.name c.timeout)⟩]

end Client

namespace WatchLoop

/-- The deadline of an attempt of the loop. -/
def deadline (w : WatchLoop) : Deadline :=
  ⟨w.settings.retryTimeout,
    .storeUnavailable
      (.attemptTimedOut w.attemptName w.cache.kind.name w.settings.retryTimeout)⟩

/-- The signal that an answer to the loop's call is. -/
def signalOf : (r : Request) → Except Failure r.Answer → Option Signal
  | .range _, result => some (.listed result)
  | .watch _ _, result => some (.opened result)
  | _, _ => none

end WatchLoop

namespace Worker

def ofLoop (loop : WatchLoop) : Worker := ⟨loop, none, .perform⟩

/-- Whether the loop goes on by itself. -/
def isActive (w : Worker) : Bool :=
  match w.loop.stage with
  | .ready => true
  | .listing | .opening => w.timer.isNone && w.loop.request?.isSome
  | .waiting _ => w.timer.isNone
  | _ => false

/-- Whether the loop is blocked on something due at a time. -/
def isDue (time : Nat) (w : Worker) : Bool := w.timer.any fun t => t.due ≤ time

def isReading (script : Script) (w : Worker) : Bool := w.loop.stream?.any script.isReady

end Worker

namespace World

variable {α : Type}

def ofScript (script : Script) (client : Client) (wall : WallTime) : World :=
  ⟨0, wall, script, client, none, 0⟩

def workers (w : World) : List Worker := (w.hub.map Hub.workers).getD []

/-- Puts a worker back in its place. -/
def setWorker (w : World) (i : Nat) (worker : Worker) : World :=
  { w with hub := w.hub.map fun (h : Hub) => { h with workers := h.workers.set i worker } }

/-- Gives a signal to a worker. A stream that the loop no longer reads is released. -/
def signal (w : World) (i : Nat) (worker : Worker) (s : Signal) : World :=
  let loop := worker.loop.react s
  let script := match worker.loop.stream? with
    | none => w.script
    | some channel =>
      if loop.stream? = some channel then w.script else w.script.release channel
  { w with script := script }.setWorker i ⟨loop, none, .perform⟩

/-- Answers the call of a worker. -/
def finishCall (w : World) (i : Nat) (worker : Worker) (r : Request) : World :=
  let (answer, script) := match worker.outcome with
    | .fail cause => (.error cause, w.script)
    | .perform => w.script.answer r
  match WatchLoop.signalOf r answer with
  | none => w
  | some s => { w with script := script }.signal i worker s

/-- What a worker was blocked on is due. -/
def wake (w : World) (i : Nat) (worker : Worker) : World :=
  match worker.loop.request? with
  | some r => w.finishCall i worker r
  | none => w.signal i worker .elapsed

/-- Blocks a worker for some time, if it is any. -/
def block (w : World) (i : Nat) (worker : Worker) (delay : Nat) (outcome : Outcome) : World :=
  if delay = 0 then w.wake i { worker with outcome := outcome }
  else { w with nextOrder := w.nextOrder + 1 }.setWorker i
    { worker with timer := some ⟨w.now + delay, w.nextOrder⟩, outcome := outcome }

/-- Begins the call of a worker. -/
def beginCall (w : World) (i : Nat) (worker : Worker) (r : Request) : World :=
  let (fault, script) := w.script.beginCall w.now r
  let (delay, outcome) := settleCall fault (w.client.deadlines r ++ [worker.loop.deadline])
  { w with script := script }.block i worker delay outcome

/-- Lets a worker go on that nothing blocks. -/
def goOn (w : World) (i : Nat) (worker : Worker) : World :=
  match worker.loop.stage, worker.loop.request? with
  | .waiting delay, _ => w.block i worker delay .perform
  | _, some r => w.beginCall i worker r
  | _, none => w.signal i worker .proceed

/-- A worker takes an item of its stream. -/
def read (w : World) (i : Nat) (worker : Worker) : World :=
  match worker.loop.stream? with
  | none => w
  | some channel =>
    let (item, script) := w.script.receive channel
    { w with script := script }.signal i worker (.delivered item)

/-- The workers with their places. -/
def numbered (w : World) : List (Worker × Nat) := w.workers.zipIdx

/-- The first of some workers by a number. -/
def firstBy (measure : Worker → Nat) (l : List (Worker × Nat)) : Option (Worker × Nat) :=
  l.foldl (fun best e => match best with
    | none => some e
    | some b => if measure e.1 < measure b.1 then some e else best) none

/-- The worker whose timer comes first of those due at a time. -/
def nextDue? (w : World) (time : Nat) : Option (Worker × Nat) :=
  let due := w.numbered.filter fun e => e.1.isDue time
  let earliest := due.foldl (fun least e => min least ((e.1.timer.map Timer.due).getD time)) time
  firstBy (fun e => (e.timer.map Timer.order).getD 0)
    (due.filter fun e => e.1.isDue earliest)

/-- The next thing that happens without time passing. -/
def step? (w : World) : Option World :=
  match w.numbered.find? fun e => e.1.isActive with
  | some (worker, i) => some (w.goOn i worker)
  | none =>
    match firstBy (fun e => e.loop.stream?.getD 0)
        (w.numbered.filter fun e => e.1.isReading w.script) with
    | some (worker, i) => some (w.read i worker)
    | none => (w.nextDue? w.now).map fun (worker, i) => w.wake i worker

/-- The number of things that may happen in one go. -/
def stepLimit : Nat := 1000000

/-- Lets everything happen that needs no time. -/
def settleFrom : Nat → World → World
  | 0, w => w
  | fuel + 1, w =>
    match w.step? with
    | none => w
    | some w => settleFrom fuel w

def settle (w : World) : World := w.settleFrom stepLimit

/-- The time of the first timer up to a limit. -/
def nextTime? (w : World) (limit : Nat) : Option Nat :=
  (w.nextDue? limit).bind fun e => e.1.timer.map Timer.due

/-- Lets time pass up to a limit, and everything happen on the way. -/
def passFrom : Nat → World → Nat → World
  | 0, w, _ => w
  | fuel + 1, w, limit =>
    let w := w.settle
    match w.nextTime? limit with
    | none => w
    | some time => passFrom fuel { w with now := max w.now time } limit

/-- Lets time pass up to a moment, with everything that is due before it. -/
def passUntil (w : World) (moment : Nat) : World :=
  if moment ≤ w.now then w
  else { w.passFrom stepLimit (moment - 1) with now := moment }

/-- Lets time pass, with everything that is due up to its end. -/
def sleep (w : World) (milliseconds : Nat) : World :=
  { w.passFrom stepLimit (w.now + milliseconds) with now := w.now + milliseconds }.settle

/-- Makes a call and waits for its answer. -/
def perform (w : World) (r : Request) (deadlines : List Deadline) :
    Except Failure r.Answer × World :=
  let (fault, script) := w.script.beginCall w.now r
  let (delay, outcome) := settleCall fault deadlines
  let w := { w with script := script }.passUntil (w.now + delay)
  match outcome with
  | .fail cause => (.error cause, w)
  | .perform =>
    let (answer, script) := w.script.answer r
    (answer, { w with script := script })

/-- The generator of the hub. -/
def ids (w : World) : FlakeIds := (w.hub.map Hub.ids).getD (.ofNode FlakeIds.defaultNode)

/-- The caches of the hub. -/
def caches (w : World) : Caches := (w.hub.map Hub.caches).getD fun _ => none

/-- Runs a program. -/
def run (w : World) : Program α → Except Failure α × World
  | .done a => (.ok a, w)
  | .failed cause => (.error cause, w)
  | .call r next =>
    let (answer, w) := w.perform r (w.client.deadlines r)
    w.run (next answer)
  | .readClock next => w.run (next w.wall)
  | .drawId next =>
    let ids := w.ids.advance w.wall
    { w with hub := w.hub.map fun (h : Hub) => { h with ids := ids } }.run (next ids.text)
  | .readCaches next => w.run (next w.caches)

/-- Lists a kind for the first time. -/
def syncKind (w : World) (settings : WatchSettings) (kind : Kind) :
    Except Failure WatchLoop × World :=
  let loop := (WatchLoop.fresh settings kind (w.client.keyPrefix kind)).beginSync
  let r := Request.range (w.client.keyPrefix kind)
  let (answer, w) := w.perform r (w.client.deadlines r ++ [loop.deadline])
  match answer with
  | .error cause => (.error cause, w)
  | .ok listing => (.ok (loop.react (.listed (.ok listing))), w)

/-- Lists kinds in order up to the first failure. -/
def syncKinds (w : World) (settings : WatchSettings) :
    List Kind → Except Failure (List WatchLoop) × World
  | [] => (.ok [], w)
  | kind :: rest =>
    match w.syncKind settings kind with
    | (.error cause, w) => (.error cause, w)
    | (.ok loop, w) =>
      match w.syncKinds settings rest with
      | (.error cause, w) => (.error cause, w)
      | (.ok loops, w) => (.ok (loop :: loops), w)

/-- Stops every watch loop. -/
def stopLoops (w : World) : World :=
  w.numbered.foldl (fun w e => w.signal e.2 e.1 .shutdown) w

/-- Opens a hub in the place of the one before, whose loops stop. If a listing fails, nothing
changes. -/
def openHub (w : World) (settings : WatchSettings) (kinds : List Kind) (node : Nat) :
    Except Failure Unit × World :=
  match w.syncKinds settings kinds.eraseDups with
  | (.error cause, w) => (.error cause, w)
  | (.ok loops, w) =>
    let workers := loops.map fun loop => Worker.ofLoop (loop.react .start)
    (.ok (), { w.stopLoops with hub := some ⟨workers, .ofNode node⟩ })

/-- Runs an operation on the store itself, past the script. -/
def touch (w : World) (step : StoreStep) : Except Failure StepResult × World :=
  let (result, store) := w.script.store.run step
  (result, { w with script := { w.script with store := store } })

end World

end GatewayStore
