/-
  Messages as lists of fields. A field at its default value is left out, except in a choice between
  fields and inside an optional message, where its presence means something. On reading the last value
  of a field counts, and parts of one message are taken together.
-/
import GatewayStore.Wire.Field

namespace GatewayStore.Wire

/-- A type of messages. `read` gets the fields of all parts in order, and how deeply messages inside
may be nested. -/
class Message (α : Type) where
  fields : α → List Field
  read : (nesting : Nat) → List Field → Option α

namespace Message

variable {α : Type} [Message α]

/-- The bytes of a message. -/
def encode (m : α) : Bytes := Field.writeAll (fields m)

/-- The message in some bytes, inside others. -/
def decodeIn (nesting : Nat) (b : Bytes) : Option α := (Field.readAll nesting b).bind (read nesting)

/-- The message in some bytes. -/
def decode (b : Bytes) : Option α := decodeIn maxNesting b

end Message

namespace Field

variable {α : Type}

/-- A number. -/
def uint64 (tag : Nat) (n : UInt64) : List Field := if n = 0 then [] else [⟨tag, .varint n⟩]

/-- A signed number in two's complement. -/
def int64 (tag : Nat) (i : Int64) : List Field := uint64 tag i.toUInt64

/-- A signed number of 32 bits, which is written with 64. -/
def int32 (tag : Nat) (i : Int32) : List Field := int64 tag i.toInt64

def bool (tag : Nat) (b : Bool) : List Field := if b then [⟨tag, .varint 1⟩] else []

def bytes (tag : Nat) (b : Bytes) : List Field := if b = [] then [] else [⟨tag, .bytes b⟩]

def text (tag : Nat) (s : String) : List Field := bytes tag (Text.utf8 s)

/-- One message, present or not. -/
def optional [Message α] (tag : Nat) (m : Option α) : List Field :=
  m.toList.map fun m => ⟨tag, .bytes (Message.encode m)⟩

/-- Any number of messages. -/
def repeated [Message α] (tag : Nat) (l : List α) : List Field :=
  l.map fun m => ⟨tag, .bytes (Message.encode m)⟩

/-- The values of the fields with a tag. -/
def parts (tag : Nat) (fs : List Field) : List Value :=
  (fs.filter fun f => f.tag = tag).map Field.value

end Field

namespace Value

def varint? : Value → Option UInt64
  | .varint n => some n
  | _ => none

def bytes? : Value → Option Bytes
  | .bytes b => some b
  | _ => none

/-- A text must be well-formed. -/
def text? (v : Value) : Option String := v.bytes?.bind Text.ofUtf8?

end Value

/-! Reading the parts of a field, which are the values with its tag in order. -/

namespace Parts

variable {α : Type}

/-- The last of some values, all of which must be of the right form. -/
def last (read : Value → Option α) (absent : α) (vs : List Value) : Option α :=
  (vs.mapM read).map fun l => l.getLast?.getD absent

def uint64 (vs : List Value) : Option UInt64 := last Value.varint? 0 vs

def int64 (vs : List Value) : Option Int64 := (uint64 vs).map UInt64.toInt64

/-- The lower half of a number. -/
def int32 (vs : List Value) : Option Int32 := (int64 vs).map Int64.toInt32

def bool (vs : List Value) : Option Bool := (uint64 vs).map (· ≠ 0)

def bytes (vs : List Value) : Option Bytes := last Value.bytes? [] vs

def text (vs : List Value) : Option String := last Value.text? "" vs

/-- The message whose parts are given. -/
def merged [Message α] (nesting : Nat) (vs : List Value) : Option α := do
  let parts ← vs.mapM Value.bytes?
  let fields ← parts.mapM (Field.readAll (nesting - 1))
  Message.read (nesting - 1) fields.flatten

def optional [Message α] (nesting : Nat) (vs : List Value) : Option (Option α) :=
  if vs.isEmpty then some none else (merged nesting vs).map some

def repeated [Message α] (nesting : Nat) (vs : List Value) : Option (List α) :=
  vs.mapM fun v => v.bytes?.bind (Message.decodeIn (nesting - 1))

end Parts

namespace Field

variable {α : Type}

/-- A choice between fields: the last field with one of the tags decides, together with the fields of
the same tag right before it. Every run of fields has to be readable. -/
def choice (tags : List Nat) (read : Nat → List Value → Option α) (fs : List Field) :
    Option (Option α) :=
  let runs := (fs.filter fun f => f.tag ∈ tags).splitBy fun a b => a.tag = b.tag
  (runs.mapM fun run => read ((run.head?.map Field.tag).getD 0) (run.map Field.value)).map
    List.getLast?

end Field

end GatewayStore.Wire
