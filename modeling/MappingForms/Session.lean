import MappingForms.Config
import MappingForms.FilePath
import MappingForms.Files
import MappingForms.Interchange.Unit

/-!
Contract: loading all that a command works on.

Owns: the arguments of a command, the causes for which it stops, and the session with
the unit, the options of the batch, the output directory and the source text.

Files are read in a fixed order, and the first one that fails is reported: the unit,
the configuration, then the source.
-/

set_option autoImplicit false

namespace MappingForms

inductive ReportFormat where
  | text
  | json
deriving DecidableEq

structure UnitArguments where
  unit : String
  out : Option String := none
  config : Option String := none
  source : Option String := none
  jobs : Option Nat := none
  format : ReportFormat := .text
deriving DecidableEq

inductive CommandError where
  | readUnit (path : String)
  | parseUnit (path : String)
  | readConfig (path : String)
  | parseConfig (path : String)
  /-- It could not be told whether there is a configuration. -/
  | findConfig (path : String)
  | readSource (path : String)
  | createOutput (path : String)
  | writeArtifact (path : String)
  | readArtifact (path : String)
  | listOutput (path : String)
deriving DecidableEq

namespace CommandError

def message : CommandError → String
  | readUnit path => "Failed to read unit '" ++ path ++ "'"
  | parseUnit path => "Failed to parse unit '" ++ path ++ "'"
  | readConfig path => "Failed to read config '" ++ path ++ "'"
  | parseConfig path => "Failed to parse config '" ++ path ++ "'"
  | findConfig path => "Failed to stat config '" ++ path ++ "'"
  | readSource path => "Failed to read source '" ++ path ++ "'"
  | createOutput path => "Failed to create output directory '" ++ path ++ "'"
  | writeArtifact path => "Failed to write '" ++ path ++ "'"
  | readArtifact path => "Failed to read '" ++ path ++ "'"
  | listOutput path => "Failed to list '" ++ path ++ "'"

end CommandError

/-- A loaded unit with all that is needed to generate its forms and report on them. -/
structure Session where
  unit : CompilationUnit
  options : Batch.Options
  outDir : String
  source : Option String

namespace Session

private def defaultOutDir : String := "generated"

variable {m : Type → Type} [Monad m] [Files m]

/-- Turns a failed request into the error that is reported for it. -/
def orFail {α : Type} (request : m (Except FileError α)) (error : CommandError) :
    ExceptT CommandError m α := do
  match ← request with
  | .ok value => return value
  | .error _ => throw error

def loadConfig (path : String) : ExceptT CommandError m Config := do
  let text ← orFail (Files.read path) (.readConfig path)
  match Config.parse? text with
  | some config => return config
  | none => throw (.parseConfig path)

private def findConfig (directory : String) : ExceptT CommandError m (Option Config) := do
  let path := FilePath.join directory Config.fileName
  if ← orFail (Files.pathExists path) (.findConfig path) then
    return some (← loadConfig path)
  else
    return none

/-- The configuration that is named, or else the one beside the unit. -/
private def configFor (arguments : UnitArguments) : ExceptT CommandError m (Option Config) :=
  match arguments.config with
  | some path => do return some (← loadConfig path)
  | none => findConfig (FilePath.directoryOf arguments.unit)

/-- The directory for artifacts: the one that is asked for, or the configured one, or
the default; the last two beside the unit. -/
private def outDirFor (arguments : UnitArguments) (config : Option Config) : String :=
  match arguments.out with
  | some out => out
  | none =>
    FilePath.join (FilePath.directoryOf arguments.unit)
      ((config.bind (·.outDir)).getD defaultOutDir)

/-- The options of the batch. A number of jobs that is asked for replaces a configured
one. -/
private def optionsFor (arguments : UnitArguments) (config : Option Config) : Batch.Options :=
  let options := (config.map (·.options)).getD {}
  match arguments.jobs with
  | some jobs => options.withParallelism jobs
  | none => options

def load (arguments : UnitArguments) : ExceptT CommandError m Session := do
  let text ← orFail (Files.read arguments.unit) (.readUnit arguments.unit)
  let some unit := CompilationUnit.parse? text | throw (.parseUnit arguments.unit)
  let config ← configFor arguments
  let source ← arguments.source.mapM fun path =>
    orFail (Files.read path) (.readSource path)
  return {
    unit
    options := optionsFor arguments config
    outDir := outDirFor arguments config
    source }

def generate (session : Session) : Batch.Result := Batch.generate session.unit session.options

end Session

end MappingForms
