/-
  The loop that keeps one cache current. It lists the keys once and then follows the changes from
  the revision after the last one applied. A failed stream is resumed at the same place; after a
  compaction, or after too many failures in a row, the keys are listed again. Between failed attempts
  the loop waits, longer each time.

  The loop is a machine: `request?` and `stream?` tell what it waits for, and `react` takes the signal
  that it waited for. No reaction changes the phase more than once.
-/
import GatewayStore.Cache.Basic
import GatewayStore.Config.Settings
import GatewayStore.Store.Request
import GatewayStore.Watch.Session

namespace GatewayStore

/-- What a watch loop waits for. -/
inductive Stage where
  /-- the listing that startup needs -/
  | syncing
  /-- its start, after that listing -/
  | idle
  /-- nothing: it goes on by itself -/
  | ready
  | listing
  | opening
  | streaming (stream : Nat)
  | waiting (delay : Nat)
  | stopped
deriving DecidableEq

/-- What a watch loop reacts to. -/
inductive Signal where
  | listed (result : Except Failure Listing)
  | opened (result : Except Failure Nat)
  /-- an item of the stream, or its end -/
  | delivered (item : Option Delivery)
  | elapsed
  | proceed
  | start
  | shutdown

/-- A watch loop with the cache that it keeps. `failures` counts failed streams since the last
success, and `needsListing` tells what it does next. -/
structure WatchLoop where
  settings : WatchSettings
  cache : Cache
  session : Session
  backoff : Backoff
  failures : Nat
  needsListing : Bool
  stage : Stage

namespace WatchLoop

/-- A loop that has done nothing yet. -/
def fresh (settings : WatchSettings) (kind : Kind) (keyPrefix : String) : WatchLoop :=
  ⟨settings, .empty kind keyPrefix, .fresh, settings.backoff, 0, true, .idle⟩

/-- Asks for the listing that startup needs. -/
def beginSync (w : WatchLoop) : WatchLoop :=
  { w with session := w.session.enter .listing, stage := .syncing }

/-- Takes a listing into the cache; the floor of the cache is where streams resume. -/
def relist (w : WatchLoop) (listing : Listing) : WatchLoop :=
  let cache := (w.cache.replaceAll listing.keys listing.revision).2
  { w with cache := cache, session := w.session.relisted cache.floor }

/-- Takes one event. -/
def applyEvent (w : WatchLoop) (e : Event) : WatchLoop :=
  let (changed, cache) := w.cache.applyEvent e
  let session := w.session.advance e.revision
  { w with
    cache := cache
    session := { session with
      eventsApplied := session.eventsApplied + if changed then 1 else 0 } }

/-- Takes a batch of events; afterwards everything up to the last revision is reflected. -/
def applyBatch (w : WatchLoop) (events : List Event) : WatchLoop :=
  let w := events.foldl applyEvent w
  { w with cache := w.cache.advanceFloor w.session.lastApplied }

/-- Waits before the next attempt. -/
def pause (w : WatchLoop) : WatchLoop :=
  { w with stage := .waiting w.backoff.delay, backoff := w.backoff.advance }

/-- Forgets earlier failures. -/
def recover (w : WatchLoop) : WatchLoop := { w with backoff := w.backoff.reset, failures := 0 }

/-- A stream failed or could not be opened. -/
def interrupted (w : WatchLoop) (cause : Failure) : WatchLoop :=
  let w := { w with session := w.session.fail cause }
  if cause.requiresRelist then { w with needsListing := true, stage := .ready }
  else
    let failures := w.failures + 1
    { w with
      failures := failures
      session := { w.session with resumeFailures := w.session.resumeFailures + 1 }
      needsListing := w.needsListing || w.settings.maxResumeFailures ≤ failures }.pause

/-- Stops for good. -/
def stop (w : WatchLoop) : WatchLoop :=
  { w with session := w.session.enter .closed, stage := .stopped }

/-- The state after a signal. A signal that the loop does not wait for changes nothing. -/
def react (w : WatchLoop) : Signal → WatchLoop
  | .listed (.ok listing) =>
    match w.stage with
    | .syncing =>
      let w := w.relist listing
      { w with session := w.session.enter .streaming, stage := .idle }
    | .listing => { (w.relist listing).recover with needsListing := false, stage := .opening }
    | _ => w
  | .listed (.error cause) =>
    match w.stage with
    | .syncing => { w with session := w.session.fail cause, stage := .idle }
    | .listing => { w with session := w.session.fail cause }.pause
    | _ => w
  | .opened result =>
    match w.stage with
    | .opening =>
      match result with
      | .ok stream => { w with session := w.session.enter .streaming, stage := .streaming stream }
      | .error cause => w.interrupted cause
    | _ => w
  | .delivered item =>
    match w.stage with
    | .streaming _ =>
      match item with
      | some (.batch events) => (w.applyBatch events).recover
      | some (.failed cause) => w.interrupted cause
      | none => w.interrupted (.storeUnavailable .streamEnded)
    | _ => w
  | .elapsed =>
    match w.stage with
    | .waiting _ => { w with stage := .ready }
    | _ => w
  | .proceed =>
    match w.stage with
    | .ready =>
      if w.needsListing then { w with session := w.session.enter .listing, stage := .listing }
      else { w with stage := .opening }
    | _ => w
  | .start =>
    match w.stage with
    | .idle =>
      { w with
        needsListing := w.session.phase ≠ .streaming
        backoff := w.settings.backoff
        failures := 0
        stage := .ready }
    | _ => w
  | .shutdown =>
    match w.stage with
    | .syncing | .idle => w
    | _ => w.stop

/-- The call whose answer the loop waits for. When there is no revision to resume from, the loop gets
no further than to the call. -/
def request? (w : WatchLoop) : Option Request :=
  match w.stage with
  | .syncing | .listing => some (.range w.cache.keyPrefix)
  | .opening => w.session.resumeRevision?.map (.watch w.cache.keyPrefix)
  | _ => none

/-- The stream that the loop reads. -/
def stream? (w : WatchLoop) : Option Nat :=
  match w.stage with
  | .streaming stream => some stream
  | _ => none

/-- The word for the attempt in the text of its timeout. -/
def attemptName (w : WatchLoop) : String :=
  match w.stage with
  | .opening => "watch"
  | _ => "list"

end WatchLoop

end GatewayStore
