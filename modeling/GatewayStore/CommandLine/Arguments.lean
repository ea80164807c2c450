/-
  Reading arguments: commands inside commands, each with its options. An option that waits for its
  value takes the next argument unless that starts with a dash; it is settled when the next option
  comes, or at the end. After two dashes there are no more options.
-/
namespace GatewayStore.CommandLine

/-- What arguments ask for, or lack, instead of naming something to do. -/
inductive UsageFault where
  | help
  | version
  | bareCommand
  | missingCommand
  | unknownCommand
  | unknownArgument
  | invalidValue
  | tooManyValues
  | repeatedOption
deriving DecidableEq

/-- What an option takes: nothing, one value once, or one value any number of times. -/
inductive OptionForm where
  | switch
  | value
  | values
deriving DecidableEq

/-- An option with its long name, perhaps a letter, and the values it allows if not all. -/
structure OptionSpec where
  name : String
  letter : Option Char
  form : OptionForm
  allowed : Option (List String)
deriving DecidableEq

/-- A command with its options and the commands inside it. -/
structure CommandSpec where
  name : String
  options : List OptionSpec
  hasVersion : Bool
  commands : List CommandSpec

/-- The values given for options, by name. -/
abbrev Given := List (String × List String)

namespace CommandSpec

def command? (spec : CommandSpec) (name : String) : Option CommandSpec :=
  spec.commands.find? fun c => c.name = name

/-- Whether there is a command that explains the others. -/
def hasHelp (spec : CommandSpec) : Bool := !spec.commands.isEmpty

/-- What asking for an explanation of a command inside leads to. -/
def helpOn (spec : CommandSpec) : List String → UsageFault
  | [] => .help
  | name :: rest =>
    match spec.command? name with
    | some c => c.helpOn rest
    | none => if name = "help" ∧ spec.hasHelp ∧ rest.isEmpty then .help else .unknownCommand

/-- Why an argument that is no option is refused. -/
def refusal (spec : CommandSpec) (isTrailing : Bool) (arg : String) : UsageFault :=
  if isTrailing ∧ ((spec.command? arg).isSome ∨ (arg = "help" ∧ spec.hasHelp)) then .unknownArgument
  else if spec.commands.isEmpty then .unknownArgument
  else .unknownCommand

end CommandSpec

/-- The form of an argument. -/
inductive Argument where
  | endOfOptions
  | long (name : String) (value : Option String)
  | letters (letters : List Char)
  | plain
deriving DecidableEq

def Argument.ofText (s : String) : Argument :=
  match s.toList with
  | ['-', '-'] => .endOfOptions
  | '-' :: '-' :: rest =>
    let (name, value) := rest.span (· ≠ '=')
    .long (String.ofList name)
      (if value.isEmpty then none else some (String.ofList (value.drop 1)))
  | '-' :: c :: rest => .letters (c :: rest)
  | _ => .plain

/-- What has been read of one command. `pending` is the option read last, with its values. -/
structure Level where
  given : Given
  pending : Option (OptionSpec × List String)
  isTrailing : Bool

namespace Level

def start : Level := ⟨[], none, false⟩

/-- Whether an option waits for its value. -/
def isAwaiting (l : Level) : Bool := l.pending.any fun p => p.2.isEmpty

/-- Records an option with its values. -/
def record (l : Level) (o : OptionSpec) (values : List String) : Except UsageFault Level :=
  let earlier := l.given.lookup o.name
  if earlier.isSome ∧ o.form ≠ .values then .error .repeatedOption
  else if !values.all fun v => (o.allowed.map fun a => a.contains v).getD true then
    .error .invalidValue
  else
    .ok { l with given := (o.name, earlier.getD [] ++ values) ::
      l.given.filter fun e => e.1 ≠ o.name }

/-- Records the pending option, which must have its value. -/
def settle (l : Level) : Except UsageFault Level :=
  match l.pending with
  | none => .ok l
  | some (_, []) => .error .invalidValue
  | some (o, values) => { l with pending := none }.record o values

/-- An option with its value, or before it. -/
def takeOption (l : Level) (o : OptionSpec) (attached : Option String) :
    Except UsageFault Level := do
  let l ← l.settle
  match attached with
  | some v => l.record o [v]
  | none => return { l with pending := some (o, []) }

def takeSwitch (l : Level) (o : OptionSpec) : Except UsageFault Level := do
  (← l.settle).record o []

/-- An option that is answered at once. -/
def answer (l : Level) (reply : UsageFault) : Except UsageFault Level := do
  let _ ← l.settle
  .error reply

/-- The value that the pending option waits for. -/
def takeValue (l : Level) (value : String) : Level :=
  { l with pending := l.pending.map fun p => (p.1, p.2 ++ [value]) }

/-- An option by its long name. -/
def takeLong (l : Level) (spec : CommandSpec) (name : String) (value : Option String) :
    Except UsageFault Level :=
  let unvalued (taken : Except UsageFault Level) : Except UsageFault Level :=
    if value.isSome then .error .tooManyValues else taken
  if name = "help" then unvalued (l.answer .help)
  else if name = "version" ∧ spec.hasVersion then unvalued (l.answer .version)
  else match spec.options.find? fun o => o.name = name with
    | none => .error .unknownArgument
    | some o => if o.form = .switch then unvalued (l.takeSwitch o) else l.takeOption o value

/-- What is attached to a letter. -/
def attached? : List Char → Option String
  | [] => none
  | '=' :: rest => some (String.ofList rest)
  | rest => some (String.ofList rest)

/-- Options by their letters after one dash. -/
def takeLetters (l : Level) (spec : CommandSpec) : List Char → Except UsageFault Level
  | [] => .ok l
  | c :: rest =>
    if c = 'h' then l.answer .help
    else if c = 'V' ∧ spec.hasVersion then l.answer .version
    else match spec.options.find? fun o => o.letter = some c with
      | none => .error .unknownArgument
      | some o =>
        if o.form = .switch then do (← l.takeSwitch o).takeLetters spec rest
        else l.takeOption o (attached? rest)

end Level

/-- Reads the arguments of a command: the commands named, the outermost first, with their options. -/
def CommandSpec.read (spec : CommandSpec) (l : Level) :
    List String → Except UsageFault (List (String × Given))
  | [] => do
    let l ← l.settle
    if spec.commands.isEmpty then return [(spec.name, l.given)]
    else .error (if l.given.isEmpty then .bareCommand else .missingCommand)
  | arg :: rest =>
    if l.isTrailing then .error (spec.refusal true arg)
    else match if l.isAwaiting then none else spec.command? arg with
      | some c => do
        let inner ← c.read .start rest
        return (spec.name, (← l.settle).given) :: inner
      | none =>
        if !l.isAwaiting ∧ arg = "help" ∧ spec.hasHelp then .error (spec.helpOn rest)
        else match Argument.ofText arg with
          | .endOfOptions => spec.read { l with isTrailing := true } rest
          | .long name value => do spec.read (← l.takeLong spec name value) rest
          | .letters letters => do spec.read (← l.takeLetters spec letters) rest
          | .plain =>
            if l.isAwaiting then spec.read (l.takeValue arg) rest
            else .error (spec.refusal false arg)

end GatewayStore.CommandLine
