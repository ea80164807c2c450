/-
  The messages of the etcd protocol that the store uses.
-/
import GatewayStore.Wire.Message

namespace GatewayStore.Etcd

open Wire

structure ResponseHeader where
  clusterId : UInt64
  memberId : UInt64
  revision : Int64
  raftTerm : UInt64
deriving DecidableEq

instance : Message ResponseHeader where
  fields m := Field.uint64 1 m.clusterId ++ Field.uint64 2 m.memberId ++ Field.int64 3 m.revision ++
    Field.uint64 4 m.raftTerm
  read _ fs := do
    return ⟨← Parts.uint64 (Field.parts 1 fs), ← Parts.uint64 (Field.parts 2 fs),
      ← Parts.int64 (Field.parts 3 fs), ← Parts.uint64 (Field.parts 4 fs)⟩

structure KeyValue where
  key : Bytes
  createRevision : Int64
  modRevision : Int64
  version : Int64
  value : Bytes
  lease : Int64
deriving DecidableEq

instance : Message KeyValue where
  fields m := Field.bytes 1 m.key ++ Field.int64 2 m.createRevision ++
    Field.int64 3 m.modRevision ++ Field.int64 4 m.version ++ Field.bytes 5 m.value ++
    Field.int64 6 m.lease
  read _ fs := do
    return ⟨← Parts.bytes (Field.parts 1 fs), ← Parts.int64 (Field.parts 2 fs),
      ← Parts.int64 (Field.parts 3 fs), ← Parts.int64 (Field.parts 4 fs),
      ← Parts.bytes (Field.parts 5 fs), ← Parts.int64 (Field.parts 6 fs)⟩

structure RangeRequest where
  key : Bytes
  rangeEnd : Bytes
  limit : Int64
  revision : Int64
  countOnly : Bool
deriving DecidableEq

instance : Message RangeRequest where
  fields m := Field.bytes 1 m.key ++ Field.bytes 2 m.rangeEnd ++ Field.int64 3 m.limit ++
    Field.int64 4 m.revision ++ Field.bool 9 m.countOnly
  read _ fs := do
    return ⟨← Parts.bytes (Field.parts 1 fs), ← Parts.bytes (Field.parts 2 fs),
      ← Parts.int64 (Field.parts 3 fs), ← Parts.int64 (Field.parts 4 fs),
      ← Parts.bool (Field.parts 9 fs)⟩

structure RangeResponse where
  header : Option ResponseHeader
  kvs : List KeyValue
  more : Bool
  count : Int64
deriving DecidableEq

instance : Message RangeResponse where
  fields m := Field.optional 1 m.header ++ Field.repeated 2 m.kvs ++ Field.bool 3 m.more ++
    Field.int64 4 m.count
  read n fs := do
    return ⟨← Parts.optional n (Field.parts 1 fs), ← Parts.repeated n (Field.parts 2 fs),
      ← Parts.bool (Field.parts 3 fs), ← Parts.int64 (Field.parts 4 fs)⟩

structure PutRequest where
  key : Bytes
  value : Bytes
deriving DecidableEq

instance : Message PutRequest where
  fields m := Field.bytes 1 m.key ++ Field.bytes 2 m.value
  read _ fs := do
    return ⟨← Parts.bytes (Field.parts 1 fs), ← Parts.bytes (Field.parts 2 fs)⟩

structure PutResponse where
  header : Option ResponseHeader
deriving DecidableEq

instance : Message PutResponse where
  fields m := Field.optional 1 m.header
  read n fs := do return ⟨← Parts.optional n (Field.parts 1 fs)⟩

structure DeleteRangeRequest where
  key : Bytes
  rangeEnd : Bytes
  prevKv : Bool
deriving DecidableEq

instance : Message DeleteRangeRequest where
  fields m := Field.bytes 1 m.key ++ Field.bytes 2 m.rangeEnd ++ Field.bool 3 m.prevKv
  read _ fs := do
    return ⟨← Parts.bytes (Field.parts 1 fs), ← Parts.bytes (Field.parts 2 fs),
      ← Parts.bool (Field.parts 3 fs)⟩

structure DeleteRangeResponse where
  header : Option ResponseHeader
  deleted : Int64
deriving DecidableEq

instance : Message DeleteRangeResponse where
  fields m := Field.optional 1 m.header ++ Field.int64 2 m.deleted
  read n fs := do
    return ⟨← Parts.optional n (Field.parts 1 fs), ← Parts.int64 (Field.parts 2 fs)⟩

/-- What a key is compared with. -/
inductive CompareOperand where
  | version (n : Int64)
  | createRevision (n : Int64)
  | modRevision (n : Int64)
  | value (b : Bytes)
  | lease (n : Int64)
deriving DecidableEq

namespace CompareOperand

def field : CompareOperand → Field
  | .version n => ⟨4, .varint n.toUInt64⟩
  | .createRevision n => ⟨5, .varint n.toUInt64⟩
  | .modRevision n => ⟨6, .varint n.toUInt64⟩
  | .value b => ⟨7, .bytes b⟩
  | .lease n => ⟨8, .varint n.toUInt64⟩

def read (tag : Nat) (vs : List Value) : Option CompareOperand :=
  match tag with
  | 4 => (Parts.int64 vs).map .version
  | 5 => (Parts.int64 vs).map .createRevision
  | 6 => (Parts.int64 vs).map .modRevision
  | 7 => (Parts.bytes vs).map .value
  | _ => (Parts.int64 vs).map .lease

end CompareOperand

/-- A condition on a key. Results and targets are numbers, as other numbers than the known ones may
come. -/
structure Compare where
  result : Int32
  target : Int32
  key : Bytes
  operand : Option CompareOperand
  rangeEnd : Bytes
deriving DecidableEq

namespace Compare

def equal : Int32 := 0

def greater : Int32 := 1

def createTarget : Int32 := 1

def modTarget : Int32 := 2

end Compare

instance : Message Compare where
  fields m := Field.int32 1 m.result ++ Field.int32 2 m.target ++ Field.bytes 3 m.key ++
    m.operand.toList.map CompareOperand.field ++ Field.bytes 64 m.rangeEnd
  read _ fs := do
    return ⟨← Parts.int32 (Field.parts 1 fs), ← Parts.int32 (Field.parts 2 fs),
      ← Parts.bytes (Field.parts 3 fs), ← Field.choice [4, 5, 6, 7, 8] CompareOperand.read fs,
      ← Parts.bytes (Field.parts 64 fs)⟩

/-- An operation of a transaction. -/
inductive RequestKind where
  | range (r : RangeRequest)
  | put (r : PutRequest)
  | deleteRange (r : DeleteRangeRequest)
deriving DecidableEq

namespace RequestKind

def field : RequestKind → Field
  | .range r => ⟨1, .bytes (Message.encode r)⟩
  | .put r => ⟨2, .bytes (Message.encode r)⟩
  | .deleteRange r => ⟨3, .bytes (Message.encode r)⟩

def read (n tag : Nat) (vs : List Value) : Option RequestKind :=
  match tag with
  | 1 => (Parts.merged n vs).map .range
  | 2 => (Parts.merged n vs).map .put
  | _ => (Parts.merged n vs).map .deleteRange

end RequestKind

structure RequestOp where
  request : Option RequestKind
deriving DecidableEq

instance : Message RequestOp where
  fields m := m.request.toList.map RequestKind.field
  read n fs := do return ⟨← Field.choice [1, 2, 3] (RequestKind.read n) fs⟩

/-- The answer to an operation of a transaction. -/
inductive ResponseKind where
  | range (r : RangeResponse)
  | put (r : PutResponse)
  | deleteRange (r : DeleteRangeResponse)
deriving DecidableEq

namespace ResponseKind

def field : ResponseKind → Field
  | .range r => ⟨1, .bytes (Message.encode r)⟩
  | .put r => ⟨2, .bytes (Message.encode r)⟩
  | .deleteRange r => ⟨3, .bytes (Message.encode r)⟩

def read (n tag : Nat) (vs : List Value) : Option ResponseKind :=
  match tag with
  | 1 => (Parts.merged n vs).map .range
  | 2 => (Parts.merged n vs).map .put
  | _ => (Parts.merged n vs).map .deleteRange

end ResponseKind

structure ResponseOp where
  response : Option ResponseKind
deriving DecidableEq

instance : Message ResponseOp where
  fields m := m.response.toList.map ResponseKind.field
  read n fs := do return ⟨← Field.choice [1, 2, 3] (ResponseKind.read n) fs⟩

structure TxnRequest where
  compare : List Compare
  success : List RequestOp
  failure : List RequestOp
deriving DecidableEq

instance : Message TxnRequest where
  fields m := Field.repeated 1 m.compare ++ Field.repeated 2 m.success ++
    Field.repeated 3 m.failure
  read n fs := do
    return ⟨← Parts.repeated n (Field.parts 1 fs), ← Parts.repeated n (Field.parts 2 fs),
      ← Parts.repeated n (Field.parts 3 fs)⟩

structure TxnResponse where
  header : Option ResponseHeader
  succeeded : Bool
  responses : List ResponseOp
deriving DecidableEq

instance : Message TxnResponse where
  fields m := Field.optional 1 m.header ++ Field.bool 2 m.succeeded ++
    Field.repeated 3 m.responses
  read n fs := do
    return ⟨← Parts.optional n (Field.parts 1 fs), ← Parts.bool (Field.parts 2 fs),
      ← Parts.repeated n (Field.parts 3 fs)⟩

structure WatchCreateRequest where
  key : Bytes
  rangeEnd : Bytes
  startRevision : Int64
deriving DecidableEq

instance : Message WatchCreateRequest where
  fields m := Field.bytes 1 m.key ++ Field.bytes 2 m.rangeEnd ++ Field.int64 3 m.startRevision
  read _ fs := do
    return ⟨← Parts.bytes (Field.parts 1 fs), ← Parts.bytes (Field.parts 2 fs),
      ← Parts.int64 (Field.parts 3 fs)⟩

structure WatchCancelRequest where
  watchId : Int64
deriving DecidableEq

instance : Message WatchCancelRequest where
  fields m := Field.int64 1 m.watchId
  read _ fs := do return ⟨← Parts.int64 (Field.parts 1 fs)⟩

/-- What is asked of a watch. -/
inductive WatchRequestKind where
  | create (r : WatchCreateRequest)
  | cancel (r : WatchCancelRequest)
deriving DecidableEq

namespace WatchRequestKind

def field : WatchRequestKind → Field
  | .create r => ⟨1, .bytes (Message.encode r)⟩
  | .cancel r => ⟨2, .bytes (Message.encode r)⟩

def read (n tag : Nat) (vs : List Value) : Option WatchRequestKind :=
  match tag with
  | 1 => (Parts.merged n vs).map .create
  | _ => (Parts.merged n vs).map .cancel

end WatchRequestKind

structure WatchRequest where
  request : Option WatchRequestKind
deriving DecidableEq

instance : Message WatchRequest where
  fields m := m.request.toList.map WatchRequestKind.field
  read n fs := do return ⟨← Field.choice [1, 2] (WatchRequestKind.read n) fs⟩

/-- A change of a key. The type is a number, as other numbers than the known ones may come. -/
structure WatchEvent where
  type : Int32
  kv : Option KeyValue
  prevKv : Option KeyValue
deriving DecidableEq

/-- The type of a delete. -/
def WatchEvent.deleteType : Int32 := 1

instance : Message WatchEvent where
  fields m := Field.int32 1 m.type ++ Field.optional 2 m.kv ++ Field.optional 3 m.prevKv
  read n fs := do
    return ⟨← Parts.int32 (Field.parts 1 fs), ← Parts.optional n (Field.parts 2 fs),
      ← Parts.optional n (Field.parts 3 fs)⟩

structure WatchResponse where
  header : Option ResponseHeader
  watchId : Int64
  created : Bool
  canceled : Bool
  compactRevision : Int64
  cancelReason : String
  events : List WatchEvent
deriving DecidableEq

instance : Message WatchResponse where
  fields m := Field.optional 1 m.header ++ Field.int64 2 m.watchId ++ Field.bool 3 m.created ++
    Field.bool 4 m.canceled ++ Field.int64 5 m.compactRevision ++ Field.text 6 m.cancelReason ++
    Field.repeated 11 m.events
  read n fs := do
    return ⟨← Parts.optional n (Field.parts 1 fs), ← Parts.int64 (Field.parts 2 fs),
      ← Parts.bool (Field.parts 3 fs), ← Parts.bool (Field.parts 4 fs),
      ← Parts.int64 (Field.parts 5 fs), ← Parts.text (Field.parts 6 fs),
      ← Parts.repeated n (Field.parts 11 fs)⟩

end GatewayStore.Etcd
