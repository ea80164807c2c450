/-
  The settings of the program, with their defaults. Times are in milliseconds.
-/
import GatewayStore.Resource.Kind
import GatewayStore.Clock.Backoff

namespace GatewayStore

/-- Where the store is and how it is reached. -/
structure StoreSettings where
  backend : String
  endpoints : List String
  root : String
  connectTimeout : Nat
  requestTimeout : Nat
  node : Nat
deriving DecidableEq

/-- How a watch loop deals with failures. -/
structure WatchSettings where
  retryTimeout : Nat
  backoffInitial : Nat
  backoffMax : Nat
  maxResumeFailures : Nat
deriving DecidableEq

/-- All settings; kinds are given by name. -/
structure Settings where
  store : StoreSettings
  watch : WatchSettings
  kinds : List String
  logLevel : String
deriving DecidableEq

def StoreSettings.default : StoreSettings :=
  ⟨"etcd", ["http://127.0.0.1:2379"], "/apisix", 5000, 5000, 1⟩

def WatchSettings.default : WatchSettings := ⟨5000, 100, 10000, 3⟩

/-- A backoff as the settings ask for. -/
def WatchSettings.backoff (w : WatchSettings) : Backoff :=
  .ofBounds (.ofMillis w.backoffInitial) (.ofMillis w.backoffMax)

namespace Settings

def default : Settings := ⟨.default, .default, Kind.all.map Kind.name, "info"⟩

/-- The defaults over the store in the same process. -/
def inMemory : Settings :=
  { default with store := { StoreSettings.default with backend := "memory", endpoints := [] } }

end Settings

end GatewayStore
