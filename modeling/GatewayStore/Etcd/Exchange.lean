/-
  Store calls in terms of the etcd protocol: the message that is sent for each, and what the answer
  means.
-/
import GatewayStore.Etcd.KeyRange
import GatewayStore.Etcd.Message
import GatewayStore.Store.Request

namespace GatewayStore.Etcd

open Wire

/-- The outcome of a call as the transport reports it. -/
inductive StatusCode where
  | ok
  | cancelled
  | unknown
  | invalidArgument
  | deadlineExceeded
  | notFound
  | alreadyExists
  | permissionDenied
  | resourceExhausted
  | failedPrecondition
  | aborted
  | outOfRange
  | unimplemented
  | internal
  | unavailable
  | dataLoss
  | unauthenticated
deriving DecidableEq

namespace StatusCode

def all : List StatusCode :=
  [.ok, .cancelled, .unknown, .invalidArgument, .deadlineExceeded, .notFound, .alreadyExists,
    .permissionDenied, .resourceExhausted, .failedPrecondition, .aborted, .outOfRange,
    .unimplemented, .internal, .unavailable, .dataLoss, .unauthenticated]

/-- The code with a number. -/
def ofNumber (n : Nat) : StatusCode := (all[n]?).getD .unknown

def name : StatusCode → String
  | .ok => "Ok"
  | .cancelled => "Cancelled"
  | .unknown => "Unknown"
  | .invalidArgument => "InvalidArgument"
  | .deadlineExceeded => "DeadlineExceeded"
  | .notFound => "NotFound"
  | .alreadyExists => "AlreadyExists"
  | .permissionDenied => "PermissionDenied"
  | .resourceExhausted => "ResourceExhausted"
  | .failedPrecondition => "FailedPrecondition"
  | .aborted => "Aborted"
  | .outOfRange => "OutOfRange"
  | .unimplemented => "Unimplemented"
  | .internal => "Internal"
  | .unavailable => "Unavailable"
  | .dataLoss => "DataLoss"
  | .unauthenticated => "Unauthenticated"

end StatusCode

/-- How a call ended. -/
structure Status where
  code : StatusCode
  message : String
deriving DecidableEq

namespace Status

/-- The failure that a status stands for. -/
def failure (s : Status) : Failure :=
  match s.code with
  | .invalidArgument | .failedPrecondition => .validation (.other s.message)
  | code => .storeUnavailable (.status code.name s.message)

/-- No server listens at the address. -/
def refused : Status := ⟨.unavailable, "tcp connect error"⟩

/-- The server's answer is no message. -/
def undecodable : Status := ⟨.internal, "failed to decode Protobuf message"⟩

/-- The server ended a call without an answer. -/
def missingAnswer : Status := ⟨.internal, "Missing response message."⟩

end Status

/-- The methods of the server. -/
inductive Method where
  | range
  | put
  | deleteRange
  | txn
  | watch
deriving DecidableEq

def Method.path : Method → String
  | .range => "/etcdserverpb.KV/Range"
  | .put => "/etcdserverpb.KV/Put"
  | .deleteRange => "/etcdserverpb.KV/DeleteRange"
  | .txn => "/etcdserverpb.KV/Txn"
  | .watch => "/etcdserverpb.Watch/Watch"

/-- What is sent for a call. -/
structure Sent where
  method : Method
  body : Bytes
deriving DecidableEq

/-- The number of 64 bits as a signed one. -/
def signed (n : Nat) : Int64 := (UInt64.ofNat n).toInt64

/-- A revision from the server; a negative one counts as zero. -/
def revisionOf (i : Int64) : Nat := i.toInt.toNat

/-- The comparison that stands for a condition. -/
def compareFor (key : String) (condition : Condition) : Compare :=
  match condition with
  | .absent =>
    ⟨Compare.equal, Compare.createTarget, Text.utf8 key, some (.createRevision 0), []⟩
  | .present =>
    ⟨Compare.greater, Compare.createTarget, Text.utf8 key, some (.createRevision 0), []⟩
  | .unchanged revision =>
    ⟨Compare.equal, Compare.modTarget, Text.utf8 key, some (.modRevision (signed revision)), []⟩

/-- The message for a call. Closing a connection sends nothing. -/
def sent? : Request → Option Sent
  | .range keyPrefix =>
    let key := Text.utf8 keyPrefix
    some ⟨.range, Message.encode (RangeRequest.mk key (rangeEnd key) 0 0 false)⟩
  | .get key => some ⟨.range, Message.encode (RangeRequest.mk (Text.utf8 key) [] 0 0 false)⟩
  | .put key value none => some ⟨.put, Message.encode (PutRequest.mk (Text.utf8 key) value)⟩
  | .put key value (some condition) =>
    some ⟨.txn, Message.encode (TxnRequest.mk [compareFor key condition]
      [⟨some (.put ⟨Text.utf8 key, value⟩)⟩] [])⟩
  | .delete key =>
    some ⟨.deleteRange, Message.encode (DeleteRangeRequest.mk (Text.utf8 key) [] false)⟩
  | .watch keyPrefix start =>
    let key := Text.utf8 keyPrefix
    some ⟨.watch, Message.encode (WatchRequest.mk
      (some (.create ⟨key, rangeEnd key, signed start⟩)))⟩
  | .close => none

/-- The revision of an answer's header. -/
def headerRevision (header : Option ResponseHeader) : Nat :=
  (header.map fun h => revisionOf h.revision).getD 0

/-- A key from the server. -/
def storedKey (kv : KeyValue) : Except Failure StoredKey :=
  match Text.ofUtf8? kv.key with
  | none => .error (.codec .keyNotText)
  | some key => .ok ⟨key, kv.value, revisionOf kv.createRevision, revisionOf kv.modRevision⟩

def listingOf (r : RangeResponse) : Except Failure Listing := do
  return ⟨← r.kvs.mapM storedKey, headerRevision r.header⟩

def firstKeyOf (r : RangeResponse) : Except Failure (Option StoredKey) :=
  match r.kvs with
  | [] => .ok none
  | kv :: _ => (storedKey kv).map some

def deletedOf (key : String) (r : DeleteRangeResponse) : Except Failure Nat :=
  if r.deleted = 0 then .error (.notFound key) else .ok (headerRevision r.header)

def writtenOf (key : String) (r : TxnResponse) : Except Failure Nat :=
  if r.succeeded then .ok (headerRevision r.header) else .error (.preconditionFailed key)

/-- What a server sends back: messages, then the status. -/
structure Answered where
  messages : List Bytes
  status : Status
deriving DecidableEq

/-- The one message of an answer. -/
def single [Message α] (a : Answered) : Except Failure α :=
  if a.status.code ≠ .ok then .error a.status.failure
  else match a.messages with
    | [] => .error Status.missingAnswer.failure
    | body :: _ =>
      match Message.decode body with
      | none => .error Status.undecodable.failure
      | some m => .ok m

/-- What an answer means for a call. The number of a watch's stream is not the server's to give. -/
def interpret (a : Answered) : (r : Request) → Except Failure r.Answer
  | .range _ => do listingOf (← single a)
  | .get _ => do firstKeyOf (← single a)
  | .put _ _ none => do return headerRevision (PutResponse.header (← single a))
  | .put key _ (some _) => do writtenOf key (← single a)
  | .delete key => do deletedOf key (← single a)
  | .watch _ _ =>
    if a.messages.isEmpty ∧ a.status.code ≠ .ok then .error a.status.failure else .ok 0
  | .close => .ok ()

/-- An event from the server; one without a key means nothing. -/
def eventOf (e : WatchEvent) : Except Failure (Option Event) :=
  match e.kv with
  | none => .ok none
  | some kv =>
    match Text.ofUtf8? kv.key with
    | none => .error (.codec .keyNotText)
    | some key =>
      let change := if e.type = WatchEvent.deleteType then .delete else .put kv.value
      .ok (some ⟨key, change, revisionOf kv.modRevision⟩)

/-- What a message of a watch means: events, a failure that ends the stream, or nothing. -/
def translate (start : Nat) (r : WatchResponse) : Option Delivery :=
  if 0 < r.compactRevision then
    some (.failed (.streamCompacted start (revisionOf r.compactRevision)))
  else if r.canceled then some (.failed (.storeUnavailable (.watchCanceled r.cancelReason)))
  else if r.events.isEmpty then none
  else match r.events.mapM eventOf with
    | .error cause => some (.failed cause)
    | .ok events => some (.batch (events.filterMap id))

/-- What arrives of a watch: the responses up to the first message that is none, and how it ends. -/
def received (status : Status) : List Bytes → List WatchResponse × Status
  | [] => ([], status)
  | body :: rest =>
    match Message.decode body with
    | none => ([], Status.undecodable)
    | some r => ((r :: (received status rest).1), (received status rest).2)

/-- The failure at the end of a watch. -/
def endingOf (status : Status) : Failure :=
  if status.code = .ok then .storeUnavailable .streamClosedByServer else status.failure

/-- What is delivered of the responses to a watch: the first failure ends it. -/
def delivered (start : Nat) (status : Status) : List WatchResponse → List Delivery
  | [] => [.failed (endingOf status)]
  | r :: rest =>
    match translate start r with
    | none => delivered start status rest
    | some (.failed cause) => [.failed cause]
    | some d => d :: delivered start status rest

/-- What a watch delivers. -/
def deliveries (start : Nat) (status : Status) (bodies : List Bytes) : List Delivery :=
  let (responses, ending) := received status bodies
  delivered start ending responses

end GatewayStore.Etcd
