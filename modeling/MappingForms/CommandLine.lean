import MappingForms.Command

/-!
Contract: the arguments of the program.

Owns: what the arguments ask for, and in which ways they can be wrong.

Options may stand before and after the name of the unit. An option takes its value
from the same argument after an equals sign, or from the next one unless that looks
like an option. Letters of short options can be put together. After two dashes nothing
is an option.
-/

set_option autoImplicit false

namespace MappingForms

inductive UsageError where
  | missingCommand
  | unknownCommand (text : String)
  | unknownOption (text : String)
  | unexpectedArgument (text : String)
  | missingUnit
  | missingValue (option : String)
  | unexpectedValue (option : String)
  | invalidValue (option value : String)
  | repeated (option : String)
deriving DecidableEq

namespace UsageError

def message : UsageError → String
  | missingCommand => "a command is required: generate or check"
  | unknownCommand text => "unrecognized command '" ++ text ++ "'"
  | unknownOption text => "unexpected argument '" ++ text ++ "'"
  | unexpectedArgument text => "unexpected argument '" ++ text ++ "'"
  | missingUnit => "the path of a unit is required"
  | missingValue option => "a value is required for '" ++ option ++ "'"
  | unexpectedValue option => "'" ++ option ++ "' takes no value"
  | invalidValue option value => "invalid value '" ++ value ++ "' for '" ++ option ++ "'"
  | repeated option => "'" ++ option ++ "' cannot be used more than once"

end UsageError

inductive Invocation where
  | version
  | help
  | command (command : Command) (arguments : UnitArguments)
deriving DecidableEq

namespace CommandLine

inductive ValueOption where
  | out
  | config
  | source
  | jobs
  | format
deriving DecidableEq

namespace ValueOption

def longName : ValueOption → String
  | out => "out"
  | config => "config"
  | source => "source"
  | jobs => "jobs"
  | format => "format"

def display (option : ValueOption) : String := "--" ++ option.longName

def all : List ValueOption := [out, config, source, jobs, format]

end ValueOption

inductive Flag where
  | verbose
  | version
  | help
deriving DecidableEq

namespace Flag

def longName : Flag → String
  | verbose => "verbose"
  | version => "version"
  | help => "help"

def letter : Flag → Char
  | verbose => 'v'
  | version => 'V'
  | help => 'h'

private def global : List Flag := [verbose, version, help]

private def ofCommand : List Flag := [verbose, help]

private def invocation? : Flag → Option Invocation
  | verbose => none
  | version => some .version
  | help => some .help

end Flag

/-- Arguments as far as they are read. -/
structure Partial where
  unit : Option String := none
  out : Option String := none
  config : Option String := none
  source : Option String := none
  jobs : Option Nat := none
  format : Option ReportFormat := none

abbrev Reading := Except UsageError

/-- A number without sign or with a plus sign, of at most 64 bits. -/
private def number? (text : String) : Option Nat :=
  let digits := match text.toList with
    | '+' :: rest => rest
    | characters => characters
  if digits.isEmpty || !digits.all Char.isDigit then none
  else
    let value := digits.foldl (fun value c => value * 10 + (c.toNat - '0'.toNat)) 0
    if value < UInt64.size then some value else none

private def format? : String → Option ReportFormat
  | "text" => some .text
  | "json" => some .json
  | _ => none

/-- Sets an option that is not set. -/
def once {α : Type} (option : ValueOption) (current : Option α) (value : α) :
    Reading (Option α) :=
  match current with
  | none => .ok (some value)
  | some _ => .error (.repeated option.display)

private def valid {α : Type} (option : ValueOption) (text : String) (value : Option α) :
    Reading α :=
  match value with
  | some value => .ok value
  | none => .error (.invalidValue option.display text)

private def setValue (given : Partial) (option : ValueOption) (text : String) : Reading Partial :=
  match option with
  | .out => return { given with out := ← once option given.out text }
  | .config => return { given with config := ← once option given.config text }
  | .source => return { given with source := ← once option given.source text }
  | .jobs =>
    return { given with jobs := ← once option given.jobs (← valid option text (number? text)) }
  | .format =>
    return { given with
      format := ← once option given.format (← valid option text (format? text)) }

private def setUnit (given : Partial) (text : String) : Reading Partial :=
  match given.unit with
  | none => return { given with unit := some text }
  | some _ => .error (.unexpectedArgument text)

private def isOption (argument : String) : Bool :=
  match argument.toList with
  | '-' :: _ :: _ => true
  | _ => false

/-- A long option without its dashes, and the value after an equals sign if there is
one. -/
private def splitLong (text : List Char) : String × Option String :=
  let name := String.ofList (text.takeWhile (· != '='))
  match text.dropWhile (· != '=') with
  | _ :: value => (name, some (String.ofList value))
  | [] => (name, none)

/-- What an argument with options asks for: flags, then perhaps an option with a value
of its own or one that takes the next argument. -/
structure Options where
  flags : List Flag := []
  valued : Option (ValueOption × Option String) := none

private def longOption (flags : List Flag) (allowed : List ValueOption) (text : List Char) :
    Reading Options :=
  let (name, value) := splitLong text
  match flags.find? fun flag => flag.longName == name with
  | some flag =>
    match value with
    | none => .ok { flags := [flag] }
    | some _ => .error (.unexpectedValue ("--" ++ name))
  | none =>
    match allowed.find? fun option => option.longName == name with
    | some option => .ok { valued := some (option, value) }
    | none => .error (.unknownOption ("--" ++ name))

/-- Letters of short options. The letter for jobs takes the rest as its value, and
nothing is read after a flag that asks for something at once. -/
private def shortOptions (flags : List Flag) (allowed : List ValueOption) :
    List Char → Reading Options
  | [] => .ok {}
  | letter :: rest =>
    if letter = 'j' ∧ ValueOption.jobs ∈ allowed then
      .ok { valued := some (.jobs, match rest with
        | [] => none
        | '=' :: value => some (String.ofList value)
        | value => some (String.ofList value)) }
    else
      match flags.find? fun flag => flag.letter == letter with
      | none => .error (.unknownOption (String.ofList ['-', letter]))
      | some flag =>
        if flag.invocation?.isSome then .ok { flags := [flag] }
        else do
          let options ← shortOptions flags allowed rest
          return { options with flags := flag :: options.flags }

private def optionsIn (flags : List Flag) (allowed : List ValueOption) (argument : String) :
    Reading Options :=
  match argument.toList with
  | '-' :: '-' :: text => longOption flags allowed text
  | '-' :: letters => shortOptions flags allowed letters
  | _ => .ok {}

def complete (command : Command) (given : Partial) : Reading Invocation :=
  match given.unit with
  | none => .error .missingUnit
  | some unit =>
    .ok (.command command
      { unit
        out := given.out
        config := given.config
        source := given.source
        jobs := given.jobs
        format := given.format.getD .text })

/-- Reads arguments after two dashes. -/
private def readPlain (command : Command) (given : Partial) : List String → Reading Invocation
  | [] => complete command given
  | argument :: rest => do readPlain command (← setUnit given argument) rest

def readArguments (command : Command) (given : Partial) : List String → Reading Invocation
  | [] => complete command given
  | "--" :: rest => readPlain command given rest
  | argument :: rest =>
    if isOption argument then do
      let options ← optionsIn Flag.ofCommand ValueOption.all argument
      match options.flags.findSome? Flag.invocation? with
      | some invocation => return invocation
      | none =>
        match options.valued with
        | none => readArguments command given rest
        | some (option, some value) => readArguments command (← setValue given option value) rest
        | some (option, none) =>
          match rest with
          | [] => throw (.missingValue option.display)
          | value :: rest =>
            if isOption value then throw (.missingValue option.display)
            else readArguments command (← setValue given option value) rest
    else do
      readArguments command (← setUnit given argument) rest

private def command? : String → Option Command
  | "generate" => some .generate
  | "check" => some .check
  | _ => none

private def isTopic (name : String) : Bool := (command? name).isSome || name == "help"

private def asksForHelp (argument : String) (rest : List String) : Bool :=
  argument == "help" && rest.length ≤ 1 && rest.all isTopic

/-- Reads all arguments. Before the command there are only flags. -/
def parse : List String → Reading Invocation
  | [] => .error .missingCommand
  | argument :: rest =>
    if isOption argument then do
      let options ← optionsIn Flag.global [] argument
      match options.flags.findSome? Flag.invocation? with
      | some invocation => return invocation
      | none => parse rest
    else
      match command? argument with
      | some command => readArguments command {} rest
      | none => if asksForHelp argument rest then .ok .help else .error (.unknownCommand argument)

def helpText : String :=
  "Mapforge: expression and in-place update generation for mapping methods\n\n" ++
  "Usage: mapforge [-v] generate|check <UNIT> [--out <OUT>] [--config <CONFIG>] " ++
  "[--source <SOURCE>] [--jobs <JOBS>] [--format text|json]\n"

variable {m : Type → Type} [Monad m] [Files m]

def run (arguments : List String) : m Outcome :=
  match parse arguments with
  | .ok .version => return { exitCode := 0, output := "mapforge " ++ generatorVersion ++ "\n" }
  | .ok .help => return { exitCode := 0, output := helpText }
  | .ok (.command command arguments) => command.run arguments
  | .error error => return { exitCode := 2, errors := "error: " ++ error.message ++ "\n" }

end CommandLine

end MappingForms
