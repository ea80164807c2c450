/-
  The kinds of gateway resources and where each is stored. A kind owns the keys under its prefix.
-/
import GatewayStore.Text.Affix

namespace GatewayStore

/-- A kind of configuration resource. -/
inductive Kind where
  | route
  | service
  | upstream
  | consumer
  | ssl
  | script
  | globalRule
  | pluginConfig
  | proto
  | streamRoute
  | serverInfo
deriving DecidableEq

namespace Kind

/-- Every kind, in registration order. -/
def all : List Kind :=
  [.route, .service, .upstream, .consumer, .ssl, .script, .globalRule, .pluginConfig, .proto,
    .streamRoute, .serverInfo]

/-- The place in the registration order. -/
def position : Kind → Nat
  | .route => 0
  | .service => 1
  | .upstream => 2
  | .consumer => 3
  | .ssl => 4
  | .script => 5
  | .globalRule => 6
  | .pluginConfig => 7
  | .proto => 8
  | .streamRoute => 9
  | .serverInfo => 10

/-- The name in configuration files and reports. -/
def name : Kind → String
  | .route => "routes"
  | .service => "services"
  | .upstream => "upstreams"
  | .consumer => "consumers"
  | .ssl => "ssls"
  | .script => "scripts"
  | .globalRule => "global_rules"
  | .pluginConfig => "plugin_configs"
  | .proto => "protos"
  | .streamRoute => "stream_routes"
  | .serverInfo => "server_info"

/-- The name of one resource of the kind. -/
def singular : Kind → String
  | .route => "route"
  | .service => "service"
  | .upstream => "upstream"
  | .consumer => "consumer"
  | .ssl => "ssl"
  | .script => "script"
  | .globalRule => "global_rule"
  | .pluginConfig => "plugin_config"
  | .proto => "proto"
  | .streamRoute => "stream_route"
  | .serverInfo => "server_info"

/-- The part of a key between the root and the resource's own key. -/
def segment : Kind → String
  | .serverInfo => "data_plane/server_info"
  | kind => kind.name

def ofName? (name : String) : Option Kind := all.find? fun kind => kind.name = name

def ofSingular? (name : String) : Option Kind := all.find? fun kind => kind.singular = name

/-- The field of a document that holds its key. -/
def keyField : Kind → String
  | .consumer => "username"
  | _ => "id"

/-- Whether the key is the id of the document. -/
def isKeyedById : Kind → Bool
  | .consumer => false
  | _ => true

/-- Server infos come from the data plane and are only read here. -/
def isWritable : Kind → Bool
  | .serverInfo => false
  | _ => true

/-- Whether a missing key is generated on creation. -/
def generatesKeys (kind : Kind) : Bool := kind.isKeyedById

/-- Every key of the kind starts with this. -/
def keyPrefix (kind : Kind) (root : String) : String :=
  Text.trimSlashes root ++ "/" ++ kind.segment ++ "/"

/-- Where the resource with this key is stored. -/
def storageKey (kind : Kind) (root key : String) : String := kind.keyPrefix root ++ key

end Kind

end GatewayStore
