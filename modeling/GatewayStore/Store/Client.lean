/-
  Access to a store under a root, with a deadline for every call.
-/
import GatewayStore.Resource.Kind
import GatewayStore.Store.Request

namespace GatewayStore

/-- The root has no slash at its end; the timeout is in milliseconds. -/
structure Client where
  root : String
  timeout : Nat
deriving DecidableEq

namespace Client

def ofRoot (root : String) (timeout : Nat) : Client := ⟨Text.trimSlashes root, timeout⟩

/-- Every key of a kind starts with this. -/
def keyPrefix (c : Client) (kind : Kind) : String := kind.keyPrefix c.root

/-- Where a resource is stored. -/
def storageKey (c : Client) (kind : Kind) (key : String) : String := kind.storageKey c.root key

end Client

end GatewayStore
