/-
  The command line: finds the file that a command needs, carries the command out and prints what comes
  of it.
-/
import GatewayStore.CommandLine.Execution

namespace GatewayStore.CommandLine

/-- What is found at a path. -/
def readEntry (path : String) : IO FileEntry := do
  try
    return .content (← IO.FS.readBinFile path).toList
  catch
    | .noFileOrDirectory .. => return .missing
    | _ => return .unreadable

/-- A line for arguments that name nothing to do. -/
def UsageFault.message : UsageFault → String
  | .help | .bareCommand =>
    "Usage: trellis [--config <path>] [--log-level <level>] start|verify|config"
  | .version => "trellis 0.1.0"
  | .missingCommand => "error: a command is missing"
  | .unknownCommand => "error: unrecognized command"
  | .unknownArgument => "error: unexpected argument"
  | .invalidValue => "error: missing or invalid value"
  | .tooManyValues => "error: unexpected value"
  | .repeatedOption => "error: an option is given twice"

/-- Whether a text was asked for and there is nothing wrong. -/
def UsageFault.isRequest : UsageFault → Bool
  | .help | .version => true
  | _ => false

end GatewayStore.CommandLine

open GatewayStore.CommandLine in
def main (args : List String) : IO UInt32 := do
  match Invocation.ofArguments args with
  | .error fault =>
    if fault.isRequest then
      IO.println fault.message
      return 0
    else
      IO.eprintln fault.message
      return 2
  | .ok invocation =>
    let outcome := invocation.run (← readEntry invocation.path)
    IO.print outcome.output
    match outcome.fault with
    | none => return 0
    | some fault =>
      IO.eprintln ("Error: " ++ fault.message)
      return 1
