/-
  Everything that can go wrong with a resource or with the store behind it. The constructors are
  the causes; the texts are in `message`, and what a caller may do about a failure in the
  functions after it.
-/
import GatewayStore.Text.Affix

namespace GatewayStore

/-- Why a resource, a key or a request is not acceptable. -/
inductive Rejection where
  | notAnObject
  | required (field : String)
  | keyLength (bytes : Nat)
  | keyAlphabet (key : String)
  | needsOneOf (owner first second : String)
  | needsField (owner field : String)
  | needsPlugins (kind : String)
  | referenceShape (field : String)
  | dangling (field target : String)
  | readOnly (kind : String)
  | idMismatch (onPath onBody : String)
  | keyMismatch (field onPath onBody : String)
  | other (message : String)
deriving DecidableEq

/-- The greatest length of a key in bytes. -/
def maxKeyLength : Nat := 64

def Rejection.message : Rejection → String
  | .notAnObject => "resource must be a JSON object"
  | .required field => field ++ " is required"
  | .keyLength n => "key must be 1-" ++ toString maxKeyLength ++ " characters, got " ++ toString n
  | .keyAlphabet key => "key " ++ key ++ " may only contain [a-zA-Z0-9-_.]"
  | .needsOneOf owner first second => owner ++ " requires " ++ first ++ " or " ++ second
  | .needsField owner field => owner ++ " requires " ++ field
  | .needsPlugins kind => kind ++ " requires a plugins object"
  | .referenceShape field => field ++ " must be a string or number"
  | .dangling field target => field ++ ": " ++ target ++ " not found"
  | .readOnly kind => kind ++ " is read-only"
  | .idMismatch onPath onBody =>
    "ID on path (" ++ onPath ++ ") doesn't match ID on body (" ++ onBody ++ ")"
  | .keyMismatch field onPath onBody =>
    field ++ " on path (" ++ onPath ++ ") doesn't match " ++ field ++ " on body (" ++ onBody ++ ")"
  | .other message => message

/-- Why the store did not answer. -/
inductive Outage where
  | offline
  | watchOffline
  | wentOffline
  | watchWentOffline
  | streamReset
  | storeClosed
  | streamEnded
  | callTimedOut (call : String) (milliseconds : Nat)
  | attemptTimedOut (attempt kind : String) (milliseconds : Nat)
  | keptChanging (kind key : String)
  | noEndpoints
  | invalidEndpoint (uri : String)
  | unknownBackend (name : String)
  | streamClosedByServer
  | watchCanceled (reason : String)
  | status (code message : String)
  | other (message : String)
deriving DecidableEq

def Outage.message : Outage → String
  | .offline => "memory store is offline"
  | .watchOffline => "watch service is offline"
  | .wentOffline => "memory store went offline"
  | .watchWentOffline => "watch service went offline"
  | .streamReset => "watch stream reset"
  | .storeClosed => "memory store closed"
  | .streamEnded => "watch stream ended"
  | .callTimedOut call ms => call ++ " timed out after " ++ toString ms ++ "ms"
  | .attemptTimedOut attempt kind ms =>
    attempt ++ " for " ++ kind ++ " timed out after " ++ toString ms ++ "ms"
  | .keptChanging kind key => kind ++ " " ++ key ++ " kept changing during update"
  | .noEndpoints => "no etcd endpoints configured"
  | .invalidEndpoint uri => "invalid endpoint " ++ uri
  | .unknownBackend name => "store backend '" ++ name ++ "' is not available in this build"
  | .streamClosedByServer => "watch stream closed by server"
  | .watchCanceled reason => "watch canceled: " ++ reason
  | .status code message => code ++ ": " ++ message
  | .other message => message

/-- Why a member of a document is not what it has to be. -/
inductive MemberFault where
  | badId (found : String)
  | notAnInteger (found : String)
  | integerOutOfRange (value : Int)
deriving DecidableEq

def MemberFault.message : MemberFault → String
  | .badId found => "id must be a string or number, got: " ++ found
  | .notAnInteger found => "invalid type: " ++ found ++ ", expected i64"
  | .integerOutOfRange value => "invalid value: integer `" ++ toString value ++ "`, expected i64"

/-- Why a JSON value is no resource. -/
inductive DocumentFault where
  | notAnObject
  | member (fault : MemberFault)
deriving DecidableEq

def DocumentFault.message : DocumentFault → String
  | .notAnObject => "validation failed: " ++ Rejection.notAnObject.message
  | .member fault => "codec error: " ++ fault.message

/-- Why stored bytes have no meaning. -/
inductive CodecFault where
  | invalidJson (key : String)
  | document (key : String) (fault : DocumentFault)
  | member (fault : MemberFault)
  | undecodable (storageKey : String)
  | keyNotText
  | other (message : String)
deriving DecidableEq

def CodecFault.message : CodecFault → String
  | .invalidJson key => "key " ++ key ++ ": invalid JSON"
  | .document key fault => "key " ++ key ++ ": " ++ fault.message
  | .member fault => fault.message
  | .undecodable storageKey => "key " ++ storageKey ++ " holds a value that does not decode"
  | .keyNotText => "non-utf8 key:"
  | .other message => message

/-- A failed operation. -/
inductive Failure where
  | notFound (key : String)
  | alreadyExists (key : String)
  | validation (cause : Rejection)
  | storeUnavailable (cause : Outage)
  | streamCompacted (requested compactRevision : Nat)
  | preconditionFailed (key : String)
  | codec (cause : CodecFault)
  | unknownKind (name : String)
deriving DecidableEq

/-- The answer class an HTTP handler gives. -/
inductive HttpStatus where
  | badRequest
  | notFound
  | conflict
  | internalServerError
  | serviceUnavailable
deriving DecidableEq

def HttpStatus.code : HttpStatus → Nat
  | .badRequest => 400
  | .notFound => 404
  | .conflict => 409
  | .internalServerError => 500
  | .serviceUnavailable => 503

namespace Failure

def message : Failure → String
  | .notFound key => "key: " ++ key ++ " is not found"
  | .alreadyExists key => "key: " ++ key ++ " is conflicted"
  | .validation cause => "validation failed: " ++ cause.message
  | .storeUnavailable cause => "store unavailable: " ++ cause.message
  | .streamCompacted requested compactRevision =>
    "revision " ++ toString requested ++ " has been compacted; compact revision is " ++
      toString compactRevision
  | .preconditionFailed key => "precondition failed for key: " ++ key
  | .codec cause => "codec error: " ++ cause.message
  | .unknownKind name => "unknown resource type: " ++ name

/-- Whether the same operation may succeed later. -/
def isRetriable : Failure → Bool
  | .storeUnavailable _ => true
  | _ => false

/-- Whether the events that a watch asked for are gone. -/
def requiresRelist : Failure → Bool
  | .streamCompacted _ _ => true
  | _ => false

def httpStatus : Failure → HttpStatus
  | .notFound _ => .notFound
  | .alreadyExists _ | .preconditionFailed _ => .conflict
  | .validation _ | .unknownKind _ => .badRequest
  | .storeUnavailable _ | .streamCompacted _ _ => .serviceUnavailable
  | .codec _ => .internalServerError

end Failure

end GatewayStore
