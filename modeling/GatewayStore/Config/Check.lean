/-
  Which settings are acceptable, and the settings that the command line puts over a file.
-/
import GatewayStore.Config.Settings
import GatewayStore.Text.Quoted

namespace GatewayStore

/-- Why settings are not acceptable. -/
inductive SettingsFault where
  | backend (name : String)
  | endpointsMissing
  | rootStart (root : String)
  | rootEnd (root : String)
  | requestTimeoutZero
  | nodeTooLarge (node : Nat)
  | retryTimeoutZero
  | backoffOrder (initial greatest : Nat)
  | resumeFailuresZero
  | unknownKind (name : String)
  | logLevel (name : String)
deriving DecidableEq

/-- The levels of the log. -/
def logLevels : List String := ["trace", "debug", "info", "warn", "error"]

/-- The greatest node number. -/
def maxNode : Nat := 1023

def SettingsFault.message : SettingsFault → String
  | .backend name => "store.backend must be 'etcd' or 'memory', got: " ++ name
  | .endpointsMissing => "store.endpoints required for etcd backend"
  | .rootStart root => "store.prefix must start with '/', got: " ++ root
  | .rootEnd root => "store.prefix must not end with '/', got: " ++ root
  | .requestTimeoutZero => "store.request_timeout_ms must be > 0"
  | .nodeTooLarge node => "store.node_id must be <= " ++ toString maxNode ++ ", got: " ++ toString node
  | .retryTimeoutZero => "watch.retry_timeout_ms must be > 0"
  | .backoffOrder initial greatest =>
    "watch.backoff_initial_ms (" ++ toString initial ++ ") cannot exceed watch.backoff_max_ms (" ++
      toString greatest ++ ")"
  | .resumeFailuresZero => "watch.max_resume_failures must be > 0"
  | .unknownKind name => "resources.kinds contains unknown kind: " ++ name
  | .logLevel name =>
    "telemetry.log_level must be one of [" ++ Text.join ", " (logLevels.map Text.quoted) ++
      "], got: " ++ name

/-- Fails unless something holds. -/
def demand (holds : Bool) (fault : SettingsFault) : Except SettingsFault Unit :=
  if holds then .ok () else .error fault

def StoreSettings.check (s : StoreSettings) : Except SettingsFault Unit := do
  demand (s.backend = "etcd" || s.backend = "memory") (.backend s.backend)
  demand (s.backend ≠ "etcd" || !s.endpoints.isEmpty) .endpointsMissing
  demand (Text.startsWith "/" s.root) (.rootStart s.root)
  demand (s.root = "/" || Text.trimSlashes s.root = s.root) (.rootEnd s.root)
  demand (s.requestTimeout ≠ 0) .requestTimeoutZero
  demand (s.node ≤ maxNode) (.nodeTooLarge s.node)

def WatchSettings.check (w : WatchSettings) : Except SettingsFault Unit := do
  demand (w.retryTimeout ≠ 0) .retryTimeoutZero
  demand (w.backoffInitial ≤ w.backoffMax) (.backoffOrder w.backoffInitial w.backoffMax)
  demand (w.maxResumeFailures ≠ 0) .resumeFailuresZero

namespace Settings

/-- The kind with a name in the settings. -/
def kindNamed (name : String) : Except SettingsFault Kind :=
  match Kind.ofName? name with
  | none => .error (.unknownKind name)
  | some kind => .ok kind

/-- The kinds by their first mention. -/
def parsedKinds (s : Settings) : Except SettingsFault (List Kind) := do
  return (← s.kinds.mapM kindNamed).eraseDups

/-- Checks every section in order. -/
def check (s : Settings) : Except SettingsFault Unit := do
  s.store.check
  s.watch.check
  let _ ← s.parsedKinds
  demand (logLevels.contains s.logLevel) (.logLevel s.logLevel)

end Settings

/-- Settings given on the command line. -/
structure Overrides where
  logLevel : Option String
  root : Option String
  endpoints : List String
deriving DecidableEq

namespace Overrides

def none : Overrides := ⟨Option.none, Option.none, []⟩

/-- The settings with the given ones in place of their own. -/
def apply (o : Overrides) (s : Settings) : Settings :=
  { s with
    logLevel := o.logLevel.getD s.logLevel
    store := { s.store with
      root := o.root.getD s.store.root
      endpoints := if o.endpoints.isEmpty then s.store.endpoints else o.endpoints } }

end Overrides

end GatewayStore
