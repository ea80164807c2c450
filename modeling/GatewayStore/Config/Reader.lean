/-
  Settings from a TOML document. Every section and every setting may be left out, and what is not
  known is ignored. A section is a table, or an array with the settings in their order.
-/
import GatewayStore.Config.Check
import GatewayStore.Toml.Reader

namespace GatewayStore

/-- The settings of a section as they are written. -/
inductive WrittenSection where
  | named (members : Toml.Members)
  | listed (values : List Toml)

namespace WrittenSection

/-- The section that a value stands for. A date has no settings. -/
def ofToml? : Toml → Option WrittenSection
  | .table _ members => some (.named members)
  | .date _ => some (.named [])
  | .array values => some (.listed values)
  | .tables earlier last =>
    some (.listed ((earlier ++ [last]).map fun members => .table .header members))
  | _ => none

/-- The section with a name; without it there are no settings. -/
def find? (name : String) (document : Toml.Members) : Option WrittenSection :=
  match document.lookup name with
  | none => some (.named [])
  | some v => ofToml? v

/-- The setting at a position and with a name. -/
def get? (s : WrittenSection) (position : Nat) (name : String) : Option Toml :=
  match s with
  | .named members => members.lookup name
  | .listed values => values[position]?

/-- A setting read by `read`; none if it is not of that form. -/
def setting (s : WrittenSection) (position : Nat) (name : String) (absent : α)
    (read : Toml → Option α) : Option α :=
  match s.get? position name with
  | none => some absent
  | some v => read v

end WrittenSection

namespace Toml

def text? : Toml → Option String
  | .string s => some s
  | _ => none

def texts? : Toml → Option (List String)
  | .array values => values.mapM text?
  | _ => none

/-- A number from 0 to `greatest`. -/
def natUpTo? (greatest : Nat) : Toml → Option Nat
  | .integer i => if 0 ≤ i ∧ i ≤ greatest then some i.toNat else none
  | _ => none

/-- A number of milliseconds. -/
def millis? : Toml → Option Nat := natUpTo? (2 ^ 64 - 1)

end Toml

def StoreSettings.ofWritten? (s : WrittenSection) : Option StoreSettings := do
  let d := StoreSettings.default
  return ⟨← s.setting 0 "backend" d.backend Toml.text?,
    ← s.setting 1 "endpoints" d.endpoints Toml.texts?,
    ← s.setting 2 "prefix" d.root Toml.text?,
    ← s.setting 3 "connect_timeout_ms" d.connectTimeout Toml.millis?,
    ← s.setting 4 "request_timeout_ms" d.requestTimeout Toml.millis?,
    ← s.setting 5 "node_id" d.node (Toml.natUpTo? (2 ^ 16 - 1))⟩

def WatchSettings.ofWritten? (s : WrittenSection) : Option WatchSettings := do
  let d := WatchSettings.default
  return ⟨← s.setting 0 "retry_timeout_ms" d.retryTimeout Toml.millis?,
    ← s.setting 1 "backoff_initial_ms" d.backoffInitial Toml.millis?,
    ← s.setting 2 "backoff_max_ms" d.backoffMax Toml.millis?,
    ← s.setting 3 "max_resume_failures" d.maxResumeFailures (Toml.natUpTo? (2 ^ 32 - 1))⟩

/-- Why a text gives no settings. -/
inductive LoadFault where
  | unreadable
  | settings (fault : SettingsFault)
deriving DecidableEq

/-- The message of a fault in a text; `<toml>` stands for the details of the reading. -/
def LoadFault.message (subject : String) : LoadFault → String
  | .unreadable => "failed to parse " ++ subject ++ ": <toml>"
  | .settings fault => fault.message

namespace Settings

/-- The settings in a document. -/
def ofDocument? (document : Toml.Members) : Option Settings := do
  let store ← StoreSettings.ofWritten? (← WrittenSection.find? "store" document)
  let watch ← WatchSettings.ofWritten? (← WrittenSection.find? "watch" document)
  let resources ← WrittenSection.find? "resources" document
  let telemetry ← WrittenSection.find? "telemetry" document
  return ⟨store, watch, ← resources.setting 0 "kinds" default.kinds Toml.texts?,
    ← telemetry.setting 0 "log_level" default.logLevel Toml.text?⟩

/-- The settings in a text, if they are acceptable. -/
def load (text : String) : Except LoadFault Settings := do
  match (Toml.parse? text).bind ofDocument? with
  | none => .error .unreadable
  | some s =>
    s.check.mapError .settings
    return s

end Settings

end GatewayStore
