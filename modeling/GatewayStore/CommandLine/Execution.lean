/-
  Doing what a command line asks for. A command reads one file at most, so what is found at its path is
  given beforehand.
-/
import GatewayStore.CommandLine.Invocation
import GatewayStore.Config.Printer
import GatewayStore.Config.Reader
import GatewayStore.Service.Basic

namespace GatewayStore.CommandLine

/-- What is found at a path. -/
inductive FileEntry where
  | missing
  | unreadable
  | content (bytes : Bytes)
deriving DecidableEq

/-- Why a command fails. -/
inductive CommandFault where
  | noFile (path : String)
  | unreadable (path : String)
  | load (fault : LoadFault)
  | loading (path : String) (fault : CommandFault)
  | overrides (fault : SettingsFault)
  | start (fault : StartFault)
  | verification (cause : Failure)
  | inconsistent (count : Nat)
  | format (name : String)
  | backend (name : String)
deriving DecidableEq

/-- The message of a fault; `<io>` stands for the details of the reading. -/
def CommandFault.message : CommandFault → String
  | .noFile path => "Config file not found: " ++ Text.quoted path
  | .unreadable path => "failed to read config file: " ++ path ++ ": <io>"
  | .load fault => fault.message "config file"
  | .loading path fault => "failed to load config from " ++ Text.quoted path ++ ": " ++ fault.message
  | .overrides fault => "invalid configuration after overrides: " ++ fault.message
  | .start fault => fault.message
  | .verification cause => "verification failed: " ++ cause.message
  | .inconsistent count => toString count ++ " inconsistent keys"
  | .format name => "unknown format: " ++ name ++ " (expected toml or json)"
  | .backend name => "unknown backend: " ++ name ++ " (expected etcd or memory)"

/-- What a command has printed, and how it failed if it did. -/
structure Outcome where
  output : String
  fault : Option CommandFault
deriving DecidableEq

namespace Outcome

def printed (output : String) : Outcome := ⟨output, none⟩

def ofExcept : Except CommandFault String → Outcome
  | .ok output => printed output
  | .error fault => ⟨"", some fault⟩

end Outcome

/-- The settings in a file. -/
def settingsIn (path : String) : FileEntry → Except CommandFault Settings
  | .missing | .unreadable => .error (.unreadable path)
  | .content b =>
    match Text.ofUtf8? b with
    | none => .error (.unreadable path)
    | some text => (Settings.load text).mapError .load

/-- The settings in a file with others put over them. -/
def settingsWith (path : String) (entry : FileEntry) (o : Overrides) :
    Except CommandFault Settings := do
  let s := o.apply (← (settingsIn path entry).mapError (.loading path))
  s.check.mapError .overrides
  return s

/-- A service with settings in a world of its own. No command reads the clock. -/
def serviceFor (s : Settings) : Except CommandFault Service :=
  (Service.ofSettings s (.ofScript .embedded s.store.client ⟨0⟩)).mapError .start

/-- Starts the service and stops it again. -/
def startCommand (s : Settings) : Except CommandFault String := do
  (← serviceFor s).run.1.mapError .start
  return ""

/-- Compares every cache with the store. -/
def verifyCommand (s : Settings) (format : ReportFormat) (isStrict : Bool) :
    Except CommandFault Outcome := do
  let (started, service) := (← serviceFor s).start
  started.mapError .start
  let world := service.world.settle
  let kinds := (world.hub.map Hub.kinds).getD []
  let report ← (world.run (verify world.client kinds)).1.mapError .verification
  let output := match format with
    | .text => report.render
    | .json => report.toJson.renderIndented ++ "\n"
  return ⟨output,
    if isStrict ∧ !report.isConsistent then some (.inconsistent report.inconsistent) else none⟩

/-- Tells what the settings in a file are about. -/
def validateCommand (path : String) (entry : FileEntry) : Except CommandFault String := do
  if entry = .missing then .error (.noFile path)
  let s ← settingsIn path entry
  let kinds ← s.parsedKinds.mapError fun fault => .load (.settings fault)
  return "✓ Configuration is valid\n  backend: " ++ s.store.backend ++ "\n  prefix:  " ++
    s.store.root ++ "\n  kinds:   " ++ toString kinds.length ++ "\n"

/-- The settings in a file with all defaults. -/
def showCommand (path : String) (entry : FileEntry) (format : String) :
    Except CommandFault String := do
  let s ← settingsIn path entry
  if format = "json" then return s.toJson.renderIndented ++ "\n"
  else if format = "toml" then return s.toToml
  else .error (.format format)

/-- The lines of a template that depend on the backend. -/
def storeTemplate? (backend : String) : Option (List String) :=
  if backend = "etcd" then some [
    "backend = \"etcd\"",
    "endpoints = [\"http://127.0.0.1:2379\"]",
    "prefix = \"/apisix\"",
    "connect_timeout_ms = 5000",
    "request_timeout_ms = 5000",
    "node_id = 1"]
  else if backend = "memory" then some [
    "backend = \"memory\"",
    "endpoints = []",
    "prefix = \"/apisix\"",
    "request_timeout_ms = 5000",
    "node_id = 1"]
  else none

/-- The lines of a template after those about the store. -/
def templateRest : List String := [
  "",
  "[watch]",
  "retry_timeout_ms = 5000",
  "backoff_initial_ms = 100",
  "backoff_max_ms = 10000",
  "max_resume_failures = 3",
  "",
  "[resources]",
  "kinds = [\"routes\", \"services\", \"upstreams\", \"consumers\", \"ssls\", \"scripts\",",
  "         \"global_rules\", \"plugin_configs\", \"protos\", \"stream_routes\", \"server_info\"]",
  "",
  "[telemetry]",
  "log_level = \"info\""]

/-- A file to start from. -/
def generateCommand (backend : String) : Except CommandFault String :=
  match storeTemplate? backend with
  | none => .error (.backend backend)
  | some store =>
    .ok (String.join ((["# Trellis configuration", "", "[store]"] ++ store ++ templateRest).map
      (· ++ "\n")))

/-- Carries out a command line, given what is found at its path. -/
def Invocation.run (i : Invocation) (entry : FileEntry) : Outcome :=
  let withSettings (o : Overrides) : Except CommandFault Settings := settingsWith i.path entry o
  match i.command with
  | .start root endpoints => .ofExcept do startCommand (← withSettings ⟨i.logLevel, root, endpoints⟩)
  | .verify format isStrict =>
    let outcome : Except CommandFault Outcome := do
      verifyCommand (← withSettings ⟨i.logLevel, none, []⟩) format isStrict
    match outcome with
    | .ok outcome => outcome
    | .error fault => ⟨"", some fault⟩
  | .validateSettings => .ofExcept (validateCommand i.path entry)
  | .showSettings format => .ofExcept (showCommand i.path entry format)
  | .generateSettings backend => .ofExcept (generateCommand backend)

end GatewayStore.CommandLine
