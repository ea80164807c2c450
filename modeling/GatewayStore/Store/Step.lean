/-
  Everything that can be done to a store from outside, as values with their results.
-/
import GatewayStore.Store.Procedure

namespace GatewayStore

/-- An operation on a store. -/
inductive StoreStep where
  | put (key : String) (value : Bytes) (condition : Option Condition)
  | delete (key : String)
  | get (key : String)
  | range (keyPrefix : String)
  | compact (revision : Nat)
  | setAvailable (available : Bool)
  | setWatchAvailable (available : Bool)
  | disconnect
  | close
deriving DecidableEq

/-- What an operation gives: a revision or a count, a key, a listing, or nothing. -/
inductive StepResult where
  | nothing
  | number (n : Nat)
  | key (found : Option StoredKey)
  | listing (found : Listing)
deriving DecidableEq

namespace Store

/-- Runs a call as an operation. -/
def runCall (s : Store) (r : Request) (result : r.Answer → StepResult) :
    Except Failure StepResult × Store :=
  let (answer, left) := s.call r
  (answer.map result, left)

/-- Runs an operation. -/
def run (s : Store) : StoreStep → Except Failure StepResult × Store
  | .put key value condition => s.runCall (.put key value condition) .number
  | .delete key => s.runCall (.delete key) .number
  | .get key => s.runCall (.get key) .key
  | .range keyPrefix => s.runCall (.range keyPrefix) .listing
  | .compact revision => (.ok (.number (s.compactedCount revision)), s.compact revision)
  | .setAvailable available => (.ok .nothing, s.setAvailable available)
  | .setWatchAvailable available => (.ok .nothing, s.setWatchAvailable available)
  | .disconnect => (.ok .nothing, s.resetStreams)
  | .close => (.ok .nothing, s.close)

/-- Runs operations in order, whatever they give. -/
def runAll (s : Store) (steps : List StoreStep) : Store := steps.foldl (fun s step => (s.run step).2) s

end Store

end GatewayStore
