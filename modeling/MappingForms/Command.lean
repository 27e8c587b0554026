import MappingForms.Json.Writer
import MappingForms.OutputDirectory

/-!
Contract: the two commands.

Owns: the report on a batch, and what `generate` and `check` do with a unit, what they
print and how they end.
-/

set_option autoImplicit false

namespace MappingForms

namespace Report

def artifactJson (artifact : Artifact) : Json :=
  .record
    [("name", .text artifact.name),
      ("kind", .text artifact.kind.reportName),
      ("spec", .text artifact.spec.display)]

def diagnosticJson (diagnostic : Diagnostic) : Json :=
  .record
    [("code", .text diagnostic.code.reportName),
      ("severity", .text diagnostic.severity.display),
      ("message", .text diagnostic.message),
      ("span", diagnostic.span.toJson),
      ("spec", .nullable CallableId.toJson diagnostic.spec),
      ("hint", .nullable .text diagnostic.hint)]

def json (result : Batch.Result) : Json :=
  .record
    [("artifacts", .list artifactJson result.artifacts),
      ("diagnostics", .list diagnosticJson result.diagnostics)]

/-- A diagnostic with its place in the source and its hint, as far as they are known. -/
def line (source : Option String) (diagnostic : Diagnostic) : String :=
  diagnostic.display ++
    (match diagnostic.label? source with
      | some label =>
        "\n  " ++ label.text ++ ": " ++ toString label.offset ++ "+" ++ toString label.length
      | none => "") ++
    (match diagnostic.hint with
      | some hint => "\n  help: " ++ hint
      | none => "")

end Report

inductive Command where
  /-- Generate its artifacts and write them. -/
  | generate
  /-- Compare its artifacts with the files that are there. -/
  | check
deriving DecidableEq

/-- What a run leaves behind besides files. -/
structure Outcome where
  exitCode : UInt32
  /-- The text for standard output. -/
  output : String := ""
  /-- The text for standard error. -/
  errors : String := ""
deriving DecidableEq

namespace Outcome

/-- The end of a run after some output, which succeeds if there is no failure. -/
def finished (output errors : String) (failure : Option String) : Outcome :=
  match failure with
  | none => { exitCode := 0, output, errors }
  | some message => { exitCode := 1, output, errors := errors ++ message ++ "\n" }

end Outcome

namespace Command

def reported (session : Session) (result : Batch.Result) : ReportFormat → String × String
  | .json => ((Report.json result).pretty ++ "\n", "")
  | .text =>
    ("", String.join (result.diagnostics.map fun diagnostic =>
      Report.line session.source diagnostic ++ "\n"))

private def errorCount (result : Batch.Result) : Nat :=
  (result.diagnostics.filter fun diagnostic => diagnostic.severity == .error).length

variable {m : Type → Type} [Monad m] [Files m]

/-- Writes the artifacts first, then reports. -/
def runGenerate (arguments : UnitArguments) : ExceptT CommandError m Outcome := do
  let session ← Session.load arguments
  let result := session.generate
  let _ ← OutputDirectory.write session.outDir result.artifacts
  let (output, errors) := reported session result arguments.format
  let count := errorCount result
  return .finished output errors
    (if count > 0 then some s!"generation finished with {count} error(s)" else none)

private def checkFailure (session : Session) (result : Batch.Result) (mismatches : List Mismatch) :
    Option String :=
  if mismatches.isEmpty then
    if result.hasErrors then some "generation reported errors" else none
  else
    some (toString mismatches.length ++ " artifact(s) in '" ++ session.outDir ++
      "' are out of date")

/-- Reports first, then compares. -/
def runCheck (arguments : UnitArguments) : ExceptT CommandError m Outcome := do
  let session ← Session.load arguments
  let result := session.generate
  let (output, errors) := reported session result arguments.format
  let comparison ←
    ExceptT.lift (ExceptT.run (OutputDirectory.compare session.outDir result.artifacts))
  match comparison with
  | .error error => return .finished output errors (some error.message)
  | .ok mismatches =>
    return .finished (output ++ String.join (mismatches.map (·.display))) errors
      (checkFailure session result mismatches)

def run (command : Command) (arguments : UnitArguments) : m Outcome := do
  let result ← match command with
    | .generate => (runGenerate arguments).run
    | .check => (runCheck arguments).run
  match result with
  | .ok outcome => return outcome
  | .error error => return .finished "" "" (some error.message)

end Command

end MappingForms
