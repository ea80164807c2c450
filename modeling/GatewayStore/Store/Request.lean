/-
  Calls to the store as values, with the type of what each answers.
-/
import GatewayStore.Store.Basic

namespace GatewayStore

/-- A call to the store. -/
inductive Request where
  | range (keyPrefix : String)
  | get (key : String)
  | put (key : String) (value : Bytes) (condition : Option Condition)
  | delete (key : String)
  | watch (keyPrefix : String) (start : Nat)
  | close
deriving DecidableEq

namespace Request

/-- What a call gives: changes give their revision, and a watch the number of its stream. -/
abbrev Answer : Request → Type
  | .range _ => Listing
  | .get _ => Option StoredKey
  | .put _ _ _ => Nat
  | .delete _ => Nat
  | .watch _ _ => Nat
  | .close => Unit

/-- The name of the call in error texts. -/
def name : Request → String
  | .range _ => "range"
  | .get _ => "get"
  | .put _ _ _ => "put"
  | .delete _ => "delete"
  | .watch _ _ => "watch"
  | .close => "close"

/-- The key or the prefix that the call is about. -/
def subject : Request → String
  | .range keyPrefix => keyPrefix
  | .get key => key
  | .put key _ _ => key
  | .delete key => key
  | .watch keyPrefix _ => keyPrefix
  | .close => ""

/-- Whether the call is a put with a condition. -/
def isConditional : Request → Bool
  | .put _ _ (some _) => true
  | _ => false

end Request

namespace Store

/-- What a call comes to: its answer with the store after it, or a failure. -/
def perform (s : Store) : (r : Request) → Except Failure (r.Answer × Store)
  | .range keyPrefix => do return (← s.range keyPrefix, s)
  | .get key => do return (← s.get key, s)
  | .put key value condition => do
    let s ← s.put key value condition
    return (s.revision, s)
  | .delete key => do
    let s ← s.delete key
    return (s.revision, s)
  | .watch keyPrefix start => do return (s.nextStream, ← s.watch keyPrefix start)
  | .close => .ok ((), s.close)

end Store

end GatewayStore
