import GatewayStore.Etcd.Message
import GatewayStore.Proofs.Wire.Fields

/-
  Reading back the messages of the protocol. The fields of each type have different tags, so each is
  read from what was written for it (`LawfulMessage`). A choice is written as one field, whatever it
  holds (`LawfulChoice`). `MessageType` lists the types, for what holds of all of them.
-/

namespace GatewayStore.Etcd

open Wire

instance : LawfulMessage ResponseHeader where
  read_fields _ _ _ := by simp [Message.fields, Message.read]

instance : LawfulMessage KeyValue where
  read_fields _ _ _ := by simp [Message.fields, Message.read]

instance : LawfulMessage RangeRequest where
  read_fields _ _ _ := by simp [Message.fields, Message.read]

instance : LawfulMessage PutRequest where
  read_fields _ _ _ := by simp [Message.fields, Message.read]

instance : LawfulMessage DeleteRangeRequest where
  read_fields _ _ _ := by simp [Message.fields, Message.read]

instance : LawfulMessage WatchCreateRequest where
  read_fields _ _ _ := by simp [Message.fields, Message.read]

instance : LawfulMessage WatchCancelRequest where
  read_fields _ _ _ := by simp [Message.fields, Message.read]

instance : LawfulMessage RangeResponse where
  read_fields _ _ h := by
    simp only [Message.fields, Field.allFit_append] at h
    simp [Message.fields, Message.read, h]

instance : LawfulMessage PutResponse where
  read_fields _ _ h := by
    simp only [Message.fields] at h
    simp [Message.fields, Message.read, h]

instance : LawfulMessage DeleteRangeResponse where
  read_fields _ _ h := by
    simp only [Message.fields, Field.allFit_append] at h
    simp [Message.fields, Message.read, h]

instance : LawfulMessage WatchEvent where
  read_fields _ _ h := by
    simp only [Message.fields, Field.allFit_append] at h
    simp [Message.fields, Message.read, h]

instance : LawfulMessage WatchResponse where
  read_fields _ _ h := by
    simp only [Message.fields, Field.allFit_append] at h
    simp [Message.fields, Message.read, h]

/-! ## Choices -/

instance : LawfulChoice [4, 5, 6, 7, 8] CompareOperand.field fun _ => CompareOperand.read where
  tag_mem o := by cases o <;> simp [CompareOperand.field]
  value_ne o := by cases o <;> simp [CompareOperand.field]
  read_field _ o _ := by
    cases o <;> simp [CompareOperand.field, CompareOperand.read, Parts.int64, Parts.uint64,
      Parts.bytes, Parts.last, Value.varint?, Value.bytes?]

/-- The fields of the operand are in the midst of the others. -/
theorem Compare.choice_fields (m : Compare) (h : Field.AllFit (Message.fields m)) :
    Field.choice [4, 5, 6, 7, 8] CompareOperand.read (Message.fields m) = some m.operand := by
  simp only [Message.fields, Field.allFit_append] at h ⊢
  rw [Field.choice_append_right (by decide), Field.choice_append_left (by decide)]
  exact Field.choice_toList 0 h.1.2

instance : LawfulMessage Compare where
  read_fields _ m h := by
    have hchoice := m.choice_fields h
    simp only [Message.fields] at hchoice
    simp [Message.fields, Message.read, hchoice, -List.append_assoc]

instance : LawfulChoice [1, 2, 3] RequestKind.field RequestKind.read where
  tag_mem k := by cases k <;> simp [RequestKind.field]
  value_ne k := by cases k <;> simp [RequestKind.field]
  read_field nesting k h := by
    cases k <;>
      simp [RequestKind.field, RequestKind.read, Parts.merged_encode nesting (h _ rfl)]

instance : LawfulMessage RequestOp where
  read_fields nesting _ h := by
    simp only [Message.fields] at h
    simp [Message.fields, Message.read, Field.choice_toList nesting h]

instance : LawfulChoice [1, 2, 3] ResponseKind.field ResponseKind.read where
  tag_mem k := by cases k <;> simp [ResponseKind.field]
  value_ne k := by cases k <;> simp [ResponseKind.field]
  read_field nesting k h := by
    cases k <;>
      simp [ResponseKind.field, ResponseKind.read, Parts.merged_encode nesting (h _ rfl)]

instance : LawfulMessage ResponseOp where
  read_fields nesting _ h := by
    simp only [Message.fields] at h
    simp [Message.fields, Message.read, Field.choice_toList nesting h]

instance : LawfulChoice [1, 2] WatchRequestKind.field WatchRequestKind.read where
  tag_mem k := by cases k <;> simp [WatchRequestKind.field]
  value_ne k := by cases k <;> simp [WatchRequestKind.field]
  read_field nesting k h := by
    cases k <;>
      simp [WatchRequestKind.field, WatchRequestKind.read, Parts.merged_encode nesting (h _ rfl)]

instance : LawfulMessage WatchRequest where
  read_fields nesting _ h := by
    simp only [Message.fields] at h
    simp [Message.fields, Message.read, Field.choice_toList nesting h]

instance : LawfulMessage TxnRequest where
  read_fields _ _ h := by
    simp only [Message.fields, Field.allFit_append] at h
    simp [Message.fields, Message.read, h]

instance : LawfulMessage TxnResponse where
  read_fields _ _ h := by
    simp only [Message.fields, Field.allFit_append] at h
    simp [Message.fields, Message.read, h]

/-! ## All messages -/

/-- The types of messages. -/
inductive MessageType where
  | responseHeader
  | keyValue
  | rangeRequest
  | rangeResponse
  | putRequest
  | putResponse
  | deleteRangeRequest
  | deleteRangeResponse
  | compare
  | requestOp
  | responseOp
  | txnRequest
  | txnResponse
  | watchCreateRequest
  | watchCancelRequest
  | watchRequest
  | watchEvent
  | watchResponse
deriving DecidableEq

namespace MessageType

/-- The messages of a type. -/
def Value : MessageType → Type
  | .responseHeader => ResponseHeader
  | .keyValue => KeyValue
  | .rangeRequest => RangeRequest
  | .rangeResponse => RangeResponse
  | .putRequest => PutRequest
  | .putResponse => PutResponse
  | .deleteRangeRequest => DeleteRangeRequest
  | .deleteRangeResponse => DeleteRangeResponse
  | .compare => Compare
  | .requestOp => RequestOp
  | .responseOp => ResponseOp
  | .txnRequest => TxnRequest
  | .txnResponse => TxnResponse
  | .watchCreateRequest => WatchCreateRequest
  | .watchCancelRequest => WatchCancelRequest
  | .watchRequest => WatchRequest
  | .watchEvent => WatchEvent
  | .watchResponse => WatchResponse

instance : (t : MessageType) → Message t.Value
  | .responseHeader => (inferInstance : Message ResponseHeader)
  | .keyValue => (inferInstance : Message KeyValue)
  | .rangeRequest => (inferInstance : Message RangeRequest)
  | .rangeResponse => (inferInstance : Message RangeResponse)
  | .putRequest => (inferInstance : Message PutRequest)
  | .putResponse => (inferInstance : Message PutResponse)
  | .deleteRangeRequest => (inferInstance : Message DeleteRangeRequest)
  | .deleteRangeResponse => (inferInstance : Message DeleteRangeResponse)
  | .compare => (inferInstance : Message Compare)
  | .requestOp => (inferInstance : Message RequestOp)
  | .responseOp => (inferInstance : Message ResponseOp)
  | .txnRequest => (inferInstance : Message TxnRequest)
  | .txnResponse => (inferInstance : Message TxnResponse)
  | .watchCreateRequest => (inferInstance : Message WatchCreateRequest)
  | .watchCancelRequest => (inferInstance : Message WatchCancelRequest)
  | .watchRequest => (inferInstance : Message WatchRequest)
  | .watchEvent => (inferInstance : Message WatchEvent)
  | .watchResponse => (inferInstance : Message WatchResponse)

instance (t : MessageType) : LawfulMessage t.Value := by
  cases t <;> dsimp only [Value, instMessageValue] <;> infer_instance

end MessageType

/-- Every message is read back as it was written, and no other one is written the same way. Presence
is a part of the value, so a default that is chosen and an optional message of defaults are told from
absent ones. The number of bytes has 64 bits, as that of all bytes in a memory has. -/
theorem decode_encode_message (t : MessageType) (m : t.Value)
    (hlength : (Message.encode m).length < 2 ^ 64) :
    Message.decode (Message.encode m) = some m ∧
      ∀ m' : t.Value, Message.encode m' = Message.encode m → m' = m :=
  ⟨Message.decode_encode hlength, fun _ => Message.encode_injective hlength⟩

/-- A transaction with a condition on a creation at zero, a result and a target that are not known, an
operation that is an empty message, and one that is none. -/
def sampleTxn : TxnRequest :=
  ⟨[⟨-1, 7, [47], some (.createRevision 0), []⟩], [⟨some (.put ⟨[], []⟩)⟩, ⟨none⟩], []⟩

theorem decode_encode_message_txn :
    (Message.encode sampleTxn).length < 2 ^ 64 ∧
      Message.decode (Message.encode sampleTxn) = some sampleTxn ∧
      ∀ m : TxnRequest, Message.encode m = Message.encode sampleTxn → m = sampleTxn :=
  have hlength : (Message.encode sampleTxn).length < 2 ^ 64 := by decide +kernel
  ⟨hlength, decode_encode_message .txnRequest sampleTxn hlength⟩

end GatewayStore.Etcd
