/-
  The stored form of resources. Encoding is the stored text in UTF-8; decoding accepts any JSON
  document and takes the key for a missing id.
-/
import GatewayStore.Resource.Basic

namespace GatewayStore.Resource

/-- The bytes stored for a resource. -/
def encode (r : Resource) : Bytes := Text.utf8 r.storedText

/-- The resource with its id filled in from the key it was found under. -/
def withKey (r : Resource) (key : String) : Resource := if r.id = "" then { r with id := key } else r

/-- The resource in the bytes found under a key. -/
def decode (key : String) (bytes : Bytes) : Except CodecFault Resource :=
  match Json.ofBytes? bytes with
  | none => .error (.invalidJson key)
  | some v =>
    match ofJson v with
    | .error fault => .error (.document key fault)
    | .ok r => .ok (r.withKey key)

/-- The failure that a document fault is outside the store. -/
def failureOf : DocumentFault → Failure
  | .notAnObject => .validation .notAnObject
  | .member fault => .codec (.member fault)

end GatewayStore.Resource
