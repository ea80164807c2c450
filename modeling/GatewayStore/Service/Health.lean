/-
  The state of a component and what it means for the whole.
-/
namespace GatewayStore

/-- The state of a component. -/
inductive ComponentHealth where
  | starting
  | healthy
  | failed
  | stopping
  | stopped
deriving DecidableEq

namespace ComponentHealth

def all : List ComponentHealth := [.starting, .healthy, .failed, .stopping, .stopped]

def name : ComponentHealth → String
  | .starting => "Starting"
  | .healthy => "Healthy"
  | .failed => "Failed"
  | .stopping => "Stopping"
  | .stopped => "Stopped"

def ofName? (name : String) : Option ComponentHealth := all.find? fun h => h.name = name

end ComponentHealth

/-- The states of the store client and of the hub. -/
structure Health where
  store : ComponentHealth
  hub : ComponentHealth
deriving DecidableEq

namespace Health

def initial : Health := ⟨.starting, .starting⟩

/-- Whether requests can be served. -/
def isReady (h : Health) : Bool := h.store = .healthy && h.hub = .healthy

/-- Whether nothing has failed. -/
def isAlive (h : Health) : Bool := h.store ≠ .failed && h.hub ≠ .failed

end Health

end GatewayStore
