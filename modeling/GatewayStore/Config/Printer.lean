/-
  Settings as text: sections of named values, in TOML and in JSON.
-/
import GatewayStore.Config.Settings
import GatewayStore.Json.Printer
import GatewayStore.Toml.Printer

namespace GatewayStore.Settings

/-- The sections of the settings with their values. -/
def sections (s : Settings) : List (String × List (String × Toml.Entry)) := [
  ("store", [
    ("backend", .text s.store.backend),
    ("endpoints", .texts s.store.endpoints),
    ("prefix", .text s.store.root),
    ("connect_timeout_ms", .number s.store.connectTimeout),
    ("request_timeout_ms", .number s.store.requestTimeout),
    ("node_id", .number s.store.node)]),
  ("watch", [
    ("retry_timeout_ms", .number s.watch.retryTimeout),
    ("backoff_initial_ms", .number s.watch.backoffInitial),
    ("backoff_max_ms", .number s.watch.backoffMax),
    ("max_resume_failures", .number s.watch.maxResumeFailures)]),
  ("resources", [("kinds", .texts s.kinds)]),
  ("telemetry", [("log_level", .text s.logLevel)])]

/-- A value in JSON. -/
def entryJson : Toml.Entry → Json
  | .text s => .string s
  | .number n => (Json.integer? n).getD .null
  | .texts l => .array (l.map .string)

/-- The settings in JSON. -/
def toJson (s : Settings) : Json :=
  .object (s.sections.map fun e => (e.1, .object (e.2.map fun m => (m.1, entryJson m.2))))

/-- The settings in TOML. -/
def toToml (s : Settings) : String := Toml.render s.sections

end GatewayStore.Settings
