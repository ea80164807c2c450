/-
  The progress of a watch loop: its phase, the revision up to which the cache is current, and counts
  of what happened.
-/
import GatewayStore.Failure
import GatewayStore.Json.Basic
import GatewayStore.Resource.Kind

namespace GatewayStore

/-- Where a watch loop is in its life. -/
inductive Phase where
  | initializing
  | listing
  | streaming
  | erroring
  | closed
deriving DecidableEq

def Phase.name : Phase → String
  | .initializing => "initializing"
  | .listing => "listing"
  | .streaming => "streaming"
  | .erroring => "erroring"
  | .closed => "closed"

/-- The progress of a watch loop. -/
structure Session where
  phase : Phase
  lastApplied : Nat
  eventsApplied : Nat
  relists : Nat
  resumeFailures : Nat
  lastError : Option Failure
deriving DecidableEq

namespace Session

def fresh : Session := ⟨.initializing, 0, 0, 0, 0, none⟩

/-- The revision after the last one applied. -/
def resumeRevision (s : Session) : Nat := s.lastApplied + 1

/-- The revision from which a stream is resumed. Revisions are words of 64 bits, so there is none after
the greatest. -/
def resumeRevision? (s : Session) : Option Nat :=
  if s.resumeRevision < 2 ^ 64 then some s.resumeRevision else none

def enter (s : Session) (phase : Phase) : Session := { s with phase := phase }

/-- Takes an event's revision as applied. -/
def advance (s : Session) (revision : Nat) : Session :=
  { s with lastApplied := max s.lastApplied revision }

/-- Starts over from a listing. -/
def relisted (s : Session) (revision : Nat) : Session :=
  { s with lastApplied := revision, relists := s.relists + 1 }

/-- Notes a failure. -/
def fail (s : Session) (cause : Failure) : Session :=
  { s with lastError := some cause, phase := .erroring }

/-- The progress as JSON. -/
def toJson (s : Session) (kind : Kind) : Json :=
  .object [
    ("kind", .string kind.singular),
    ("phase", .string s.phase.name),
    ("last_applied_revision", .ofUInt64 (.ofNat s.lastApplied)),
    ("events_applied", .ofUInt64 (.ofNat s.eventsApplied)),
    ("relists", .ofUInt64 (.ofNat s.relists)),
    ("resume_failures", .ofUInt64 (.ofNat s.resumeFailures)),
    ("last_error", (s.lastError.map fun e => Json.string e.message).getD .null)]

end Session

end GatewayStore
