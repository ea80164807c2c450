/-
  The commands of the program.
-/
import GatewayStore.CommandLine.Arguments

namespace GatewayStore.CommandLine

inductive ReportFormat where
  | text
  | json
deriving DecidableEq

/-- Something to do. The format to show settings in and the backend of a template are checked only
when they are used. -/
inductive Command where
  | start (root : Option String) (endpoints : List String)
  | verify (format : ReportFormat) (isStrict : Bool)
  | validateSettings
  | showSettings (format : String)
  | generateSettings (backend : String)
deriving DecidableEq

/-- What a command line asks for. -/
structure Invocation where
  path : String
  logLevel : Option String
  command : Command
deriving DecidableEq

namespace Invocation

/-- Where the settings are if nothing else is said. -/
def defaultPath : String := "config/trellis.toml"

/-- The options that may stand after every command. -/
def sharedOptions : List OptionSpec :=
  [⟨"config", some 'c', .value, none⟩, ⟨"log-level", none, .value, none⟩]

/-- A command that holds no others. -/
def leaf (name : String) (options : List OptionSpec) : CommandSpec :=
  ⟨name, options ++ sharedOptions, false, []⟩

def spec : CommandSpec :=
  ⟨"gateway", sharedOptions, true, [
    leaf "start" [⟨"prefix", none, .value, none⟩, ⟨"endpoint", none, .values, none⟩],
    leaf "verify" [⟨"format", none, .value, some ["text", "json"]⟩, ⟨"strict", none, .switch, none⟩],
    ⟨"config", sharedOptions, false, [
      leaf "validate" [],
      leaf "show" [⟨"format", none, .value, none⟩],
      leaf "generate" [⟨"backend", none, .value, none⟩]]⟩]⟩

/-- The value of an option that is given once. -/
def value? (name : String) (given : Given) : Option String := (given.lookup name).bind List.head?

/-- The value of a shared option; the innermost command that has it decides. -/
def shared? (name : String) (levels : List (String × Given)) : Option String :=
  levels.reverse.findSome? fun l => value? name l.2

/-- The command that the innermost level stands for. -/
def commandOf (name : String) (given : Given) : Option Command :=
  match name with
  | "start" => some (.start (value? "prefix" given) ((given.lookup "endpoint").getD []))
  | "verify" =>
    let format := if value? "format" given = some "json" then .json else .text
    some (.verify format (given.lookup "strict").isSome)
  | "validate" => some .validateSettings
  | "show" => some (.showSettings ((value? "format" given).getD "toml"))
  | "generate" => some (.generateSettings ((value? "backend" given).getD "etcd"))
  | _ => none

/-- Reads a command line. -/
def ofArguments (args : List String) : Except UsageFault Invocation := do
  let levels ← spec.read .start args
  match levels.getLast?.bind fun l => commandOf l.1 l.2 with
  | none => .error .missingCommand
  | some command =>
    return ⟨(shared? "config" levels).getD defaultPath, shared? "log-level" levels, command⟩

end Invocation

end GatewayStore.CommandLine
