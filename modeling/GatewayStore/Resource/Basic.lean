/-
  Resources: a document with the fields that the store manages (id and times) apart from the rest.
  `ofJson` takes a document apart, `toJson` puts it together, and the stored form is the compact
  text of the managed fields followed by the payload.
-/
import GatewayStore.Json.Reader
import GatewayStore.Json.Printer
import GatewayStore.Text.Quoted
import GatewayStore.Failure
import GatewayStore.Resource.Kind

namespace GatewayStore

/-- A resource. Times are unix seconds; an empty id and a zero time mean absence. -/
structure Resource where
  id : String
  createTime : Int64
  updateTime : Int64
  payload : KeyMap Json

/-- The text of a string or number, which may serve as a key. -/
def Json.asKey? : Json → Option String
  | .string s => some s
  | .number n => some n.toText
  | _ => none

namespace Resource

/-- How a value is named in an error text. -/
def describe : Json → String
  | .null => "null"
  | .bool true => "boolean `true`"
  | .bool false => "boolean `false`"
  | .number (.integer i _) => "integer `" ++ toString i ++ "`"
  | .number (.float x) => "floating point `" ++ (Json.Number.float x).toText ++ "`"
  | .string s => "string " ++ Text.quoted s
  | .array _ => "sequence"
  | .object _ => "map"

/-- An id is a string or a number; null stands for none. -/
def idOf : Json → Except MemberFault String
  | .null => .ok ""
  | .string s => .ok s
  | .number n => .ok n.toText
  | v => .error (.badId v.render)

/-- A time is a signed integer of 64 bits. -/
def timeOf : Json → Except MemberFault Int64
  | .number (.integer i _) =>
    if i < 2 ^ 63 then .ok (Int64.ofInt i) else .error (.integerOutOfRange i)
  | v => .error (.notAnInteger (describe v))

def isReserved (name : String) : Bool :=
  name = "create_time" || name = "id" || name = "update_time"

/-- The value of a member, or what stands for its absence. -/
def memberOr (members : List (String × Json)) (name : String) (absent : α)
    (read : Json → Except MemberFault α) : Except MemberFault α :=
  match Assoc.get? name members with
  | none => .ok absent
  | some v => read v

/-- The resource of a document's members; of several faults the first in key order counts. -/
def ofMembers (members : KeyMap Json) : Except MemberFault Resource := do
  let createTime ← memberOr members.entries "create_time" 0 timeOf
  let id ← memberOr members.entries "id" "" idOf
  let updateTime ← memberOr members.entries "update_time" 0 timeOf
  return ⟨id, createTime, updateTime, members.filter fun name _ => !isReserved name⟩

/-- Reads a document, which must be an object. -/
def ofJson : Json → Except DocumentFault Resource
  | .object members => (ofMembers (.ofPairs members)).mapError .member
  | _ => .error .notAnObject

/-- The managed fields that are present, in the order in which they are stored. -/
def managed (r : Resource) : List (String × Json) :=
  (if r.id = "" then [] else [("id", .string r.id)]) ++
  (if r.createTime = 0 then [] else [("create_time", .ofInt64 r.createTime)]) ++
  (if r.updateTime = 0 then [] else [("update_time", .ofInt64 r.updateTime)])

/-- The document of a resource. A payload field wins over a managed one of the same name. -/
def toJson (r : Resource) : Json := .object (Assoc.ofPairs (r.managed ++ r.payload.entries))

/-- The stored text of a resource: managed fields first, then the payload in key order. -/
def storedText (r : Resource) : String := (Json.object (r.managed ++ r.payload.entries)).render

/-- A field of the payload. -/
def field? (r : Resource) (name : String) : Option Json := r.payload.get? name

/-- A field of the payload that is a string. -/
def fieldString? (r : Resource) (name : String) : Option String := (r.field? name).bind Json.string?

/-- The key of the resource as one of a kind. -/
def key? (r : Resource) (kind : Kind) : Option String :=
  let found := if kind.isKeyedById then some r.id else (r.field? kind.keyField).bind Json.asKey?
  found.filter (· ≠ "")

end Resource

end GatewayStore
