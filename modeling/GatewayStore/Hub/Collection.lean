/-
  The resources of one kind. Reads come from the cache. Writes are checked against the caches and go
  to the store under a condition; they reach the cache through the watch loop.
-/
import GatewayStore.Hub.Program
import GatewayStore.Resource.Query
import GatewayStore.Store.Client

namespace GatewayStore

/-- The resources of a kind behind a client. -/
structure Collection where
  kind : Kind
  client : Client
deriving DecidableEq

namespace Cache

/-- The resource with a key. -/
def find (c : Cache) (key : String) : Except Failure Resource :=
  match c.get? key with
  | none => .error (.notFound key)
  | some entry =>
    match entry.resource with
    | none => .error (.codec (.undecodable entry.storageKey))
    | some r => .ok r

/-- Lists the resources that decode. -/
def list (c : Cache) (query : ListQuery) : ListResult := query.run c.resources

end Cache

/-- The resources of some kinds cannot be written. -/
def Kind.checkWritable (kind : Kind) : Except Failure Unit :=
  if kind.isWritable then .ok () else .error (.validation (.readOnly kind.name))

namespace Resource

/-- The key of a resource that passes every check. -/
def checkedKey (r : Resource) (kind : Kind) (caches : Caches) : Except Failure String :=
  (r.validate kind caches.live).mapError .validation

/-- Makes the document agree with the key that the caller gave. -/
def bindKey (r : Resource) (kind : Kind) (key : String) : Except Failure Resource :=
  if kind.isKeyedById then
    if r.id ≠ "" ∧ r.id ≠ key then .error (.validation (.idMismatch key r.id))
    else .ok { r with id := key }
  else
    let r := if r.id = "" then { r with id := key } else r
    match r.key? kind with
    | some found =>
      if found = key then .ok r
      else .error (.validation (.keyMismatch kind.keyField key found))
    | none => .ok { r with payload := r.payload.insert kind.keyField (.string key) }

/-- The resource as created now. -/
def stampCreated (r : Resource) (now : WallTime) : Resource :=
  { r with createTime := now.unixSeconds, updateTime := now.unixSeconds }

/-- The resource as an update of an older one. -/
def stampUpdated (r : Resource) (now : WallTime) (previous : Resource) : Resource :=
  { r with
    createTime := previous.createTime
    updateTime := nextUpdateTime now previous.updateTime }

end Resource

namespace Collection

/-- How often an update is tried whose key changes meanwhile. -/
def updateAttempts : Nat := 3

/-- Checks a creation without writing: the key that it would write. The key must not be cached. -/
def createCheck (c : Collection) (caches : Caches) (r : Resource) : Except Failure String := do
  c.kind.checkWritable
  let key ← r.checkedKey c.kind caches
  if (caches c.kind).any (·.contains key) then throw (.alreadyExists key)
  return key

/-- The failure of a put under a condition, told of the resource's key. -/
def writeFailure (key : String) (condition : Condition) (cause : Failure) : Failure :=
  match cause, condition with
  | .preconditionFailed _, .absent => .alreadyExists key
  | .preconditionFailed _, .present => .notFound key
  | cause, _ => cause

/-- Puts a resource under a condition. -/
def write (c : Collection) (key : String) (r : Resource) (condition : Condition) :
    Program (Except Failure Nat) :=
  .call (.put (c.client.storageKey c.kind key) r.encode (some condition)) fun answer =>
    .done (answer.mapError (writeFailure key condition))

/-- The resource with an id: its own, a new one, or the key that it carries elsewhere. -/
def withId (c : Collection) (r : Resource) : Program Resource :=
  if r.id ≠ "" then return r
  else if c.kind.generatesKeys then .drawId fun id => .done { r with id := id }
  else return { r with id := (r.key? c.kind).getD "" }

/-- Creates a resource. -/
def create (c : Collection) (r : Resource) : Program Resource := do
  Program.ofExcept c.kind.checkWritable
  let r ← c.withId r
  let r := r.stampCreated (← Program.clock)
  let key ← Program.ofExcept (c.createCheck (← Program.caches) r)
  let _ ← Program.ofExcept (← c.write key r .absent)
  return r

/-- Replaces a resource, or creates it if it is absent and `creates` is set. A write is bound to what
was read, and is tried again with a new reading if the key changed in between. -/
def replace (c : Collection) (key : String) (r : Resource) (creates : Bool) :
    Nat → Program Resource
  | 0 => .failed (.storeUnavailable (.keptChanging c.kind.name key))
  | attempts + 1 => do
    match ← Program.request (.get (c.client.storageKey c.kind key)) with
    | none =>
      if creates then
        let r := r.stampCreated (← Program.clock)
        let _ ← Program.ofExcept (← c.write key r .absent)
        return r
      else .failed (.notFound key)
    | some found =>
      let previous ← Program.ofExcept ((Resource.decode key found.value).mapError .codec)
      let updated := r.stampUpdated (← Program.clock) previous
      match ← c.write key updated (.unchanged found.modRevision) with
      | .ok _ => return updated
      | .error (.preconditionFailed _) => c.replace key r creates attempts
      | .error cause => .failed cause

/-- Checks a document for a key and replaces what is stored there. -/
def store (c : Collection) (key : String) (r : Resource) (creates : Bool) : Program Resource := do
  Program.ofExcept c.kind.checkWritable
  let r ← Program.ofExcept (r.bindKey c.kind key)
  let _ ← Program.ofExcept (r.checkedKey c.kind (← Program.caches))
  c.replace key r creates updateAttempts

/-- Replaces a resource, which must exist. -/
def update (c : Collection) (key : String) (r : Resource) : Program Resource := c.store key r false

/-- Replaces a resource or creates it. -/
def upsert (c : Collection) (key : String) (r : Resource) : Program Resource := c.store key r true

/-- The failure of a delete, told of the resource's key. -/
def deleteFailure (key : String) : Failure → Failure
  | .notFound _ => .notFound key
  | cause => cause

/-- Deletes a resource, which must exist. -/
def delete (c : Collection) (key : String) : Program Unit := do
  Program.ofExcept c.kind.checkWritable
  Program.ofExcept ((checkKey key).mapError .validation)
  let answer ← Program.attempt (.delete (c.client.storageKey c.kind key))
  let _ ← Program.ofExcept (answer.mapError (deleteFailure key))

/-- Deletes resources in order up to the first failure. -/
def deleteAll (c : Collection) : List String → Program Unit
  | [] => return
  | key :: rest => do
    c.delete key
    c.deleteAll rest

end Collection

end GatewayStore
