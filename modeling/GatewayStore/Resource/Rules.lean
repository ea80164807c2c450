/-
  The checks before a write: the key, the fields that the kind requires, and the references to other
  resources. The live keys of other kinds are a parameter.
-/
import GatewayStore.Resource.Basic

namespace GatewayStore

/-- A payload field that names a resource of another kind. -/
structure Reference where
  field : String
  target : Kind
deriving DecidableEq

/-- The live keys: which kinds are registered, and which keys each holds. -/
structure LiveKeys where
  isRegistered : Kind → Bool
  contains : Kind → String → Bool

namespace Kind

/-- The references that are checked for a kind. -/
def references : Kind → List Reference
  | .route =>
    [⟨"service_id", .service⟩, ⟨"upstream_id", .upstream⟩, ⟨"plugin_config_id", .pluginConfig⟩,
      ⟨"script_id", .script⟩]
  | .service => [⟨"upstream_id", .upstream⟩]
  | .streamRoute => [⟨"service_id", .service⟩, ⟨"upstream_id", .upstream⟩]
  | _ => []

end Kind

/-- A letter or digit of ASCII, a minus, an underscore or a dot. -/
def isKeyChar (c : Char) : Bool := c.isAlphanum || c = '-' || c = '_' || c = '.'

/-- A key has 1 to 64 bytes, all of them key characters. -/
def checkKey (key : String) : Except Rejection Unit :=
  if key = "" ∨ maxKeyLength < key.utf8ByteSize then .error (.keyLength key.utf8ByteSize)
  else if key.toList.all isKeyChar then .ok ()
  else .error (.keyAlphabet key)

namespace Resource

/-- A field must be a string with at least one character. -/
def requireText (r : Resource) (field : String) : Except Rejection Unit :=
  match r.fieldString? field with
  | some "" => .error (.required field)
  | some _ => .ok ()
  | none => .error (.required field)

/-- The fields that a kind requires. -/
def checkFields (r : Resource) : Kind → Except Rejection Unit
  | .route =>
    if (r.field? "uri").isNone ∧ (r.field? "uris").isNone then
      .error (.needsOneOf "route" "uri" "uris")
    else .ok ()
  | .upstream =>
    if (r.field? "nodes").isNone ∧ (r.field? "service_name").isNone then
      .error (.needsOneOf "upstream" "nodes" "service_name")
    else .ok ()
  | .ssl => do
    r.requireText "cert"
    r.requireText "key"
  | .script => if (r.field? "script").isNone then .error (.needsField "script" "script") else .ok ()
  | .globalRule => checkPlugins .globalRule
  | .pluginConfig => checkPlugins .pluginConfig
  | .proto => r.requireText "content"
  | .service | .consumer | .streamRoute | .serverInfo => .ok ()
where
  checkPlugins (kind : Kind) : Except Rejection Unit :=
    match r.field? "plugins" with
    | some (.object _) => .ok ()
    | _ => .error (.needsPlugins kind.name)

/-- One reference: absent, null, empty or to an unregistered kind, or a key of its target. -/
def checkReference (r : Resource) (live : LiveKeys) (ref : Reference) : Except Rejection Unit :=
  match r.field? ref.field with
  | none | some .null => .ok ()
  | some v =>
    match v.asKey? with
    | none => .error (.referenceShape ref.field)
    | some target =>
      if target = "" ∨ !live.isRegistered ref.target ∨ live.contains ref.target target then .ok ()
      else .error (.dangling ref.field target)

/-- Every check for a kind, in order; gives the key. -/
def validate (r : Resource) (kind : Kind) (live : LiveKeys) : Except Rejection String :=
  match r.key? kind with
  | none => .error (.required kind.keyField)
  | some key => do
    checkKey key
    if r.id ≠ "" ∧ !kind.isKeyedById then checkKey r.id
    r.checkFields kind
    kind.references.forM (r.checkReference live)
    return key

end Resource

end GatewayStore
