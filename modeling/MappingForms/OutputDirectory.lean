import MappingForms.Artifact
import MappingForms.Session
import MappingForms.TextDiff.Unified

/-!
Contract: artifacts in their directory.

Owns: writing artifacts, where files that are up to date stay untouched, and comparing
a directory with the artifacts that should be in it.
-/

set_option autoImplicit false

namespace MappingForms

/-- One way in which a directory differs from the artifacts that should be in it. -/
inductive Mismatch where
  /-- An artifact has no file. -/
  | missing (name : String)
  /-- The file of an artifact has another text. -/
  | changed (name diff : String)
  /-- A generated file belongs to no artifact. -/
  | orphaned (name : String)
deriving DecidableEq

namespace Mismatch

def display : Mismatch → String
  | missing name => "missing: " ++ name ++ "\n"
  | changed _ diff => diff
  | orphaned name => "orphaned: " ++ name ++ "\n"

end Mismatch

namespace OutputDirectory

def artifactSuffix : String := ".g.cs"

def hasArtifactSuffix (name : String) : Bool :=
  artifactSuffix.toList.isSuffixOf name.toList

variable {m : Type → Type} [Monad m] [Files m]

/-- Writes an artifact unless its file has its text. The result tells whether it was
written. -/
def writeArtifact (directory : String) (artifact : Artifact) : ExceptT CommandError m Bool := do
  let path := FilePath.join directory artifact.name
  let existing ← (Files.read path : m _)
  match existing with
  | .ok text =>
    if text = artifact.text then return false
  | .error _ => pure ()
  Session.orFail (Files.write path artifact.text) (.writeArtifact path)
  return true

def writeAll (directory : String) : List Artifact → ExceptT CommandError m Nat
  | [] => return 0
  | artifact :: rest => do
    let written ← writeArtifact directory artifact
    let others ← writeAll directory rest
    return (if written then 1 else 0) + others

/-- Writes artifacts into a directory, which is created if it is missing. -/
def write (directory : String) (artifacts : List Artifact) : ExceptT CommandError m Nat := do
  Session.orFail (Files.createDirectories directory) (.createOutput directory)
  writeAll directory artifacts

def difference (artifact : Artifact) (existing : String) : String :=
  TextDiff.unified ("a/" ++ artifact.name) ("b/" ++ artifact.name) existing artifact.text

def compareArtifact (directory : String) (artifact : Artifact) :
    ExceptT CommandError m (Option Mismatch) := do
  let path := FilePath.join directory artifact.name
  let existing ← (Files.read path : m _)
  match existing with
  | .ok text =>
    if text = artifact.text then return none
    else return some (.changed artifact.name (difference artifact text))
  | .error .notFound => return some (.missing artifact.name)
  | .error .refused => throw (.readArtifact path)

def compareAll (directory : String) : List Artifact → ExceptT CommandError m (List Mismatch)
  | [] => return []
  | artifact :: rest => do
    let mismatch ← compareArtifact directory artifact
    let others ← compareAll directory rest
    return mismatch.toList ++ others

/-- The generated files among some names that belong to no artifact, sorted. -/
def orphans (artifacts : List Artifact) (names : List String) : List String :=
  (names.filter fun name =>
    hasArtifactSuffix name && !(artifacts.map (·.name)).contains name).mergeSort
      fun left right => decide (left ≤ right)

/-- Compares a directory with artifacts, in their order, with orphaned files last. -/
def compare (directory : String) (artifacts : List Artifact) :
    ExceptT CommandError m (List Mismatch) := do
  let mismatches ← compareAll directory artifacts
  let names ← Session.orFail (Files.namesIn directory) (.listOutput directory)
  return mismatches ++ (orphans artifacts (names.getD [])).map .orphaned

end OutputDirectory

end MappingForms
