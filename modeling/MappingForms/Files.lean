import MappingForms.FilePath

/-!
Contract: what the commands need of a file system.

Owns: the interface, the ways in which a request can fail, and the creation of a
directory together with those around it.
-/

set_option autoImplicit false

namespace MappingForms

inductive FileError where
  /-- There is nothing at the path. -/
  | notFound
  /-- Something else is in the way. -/
  | refused
deriving DecidableEq

class Files (m : Type → Type) where
  /-- The text of a file. -/
  read : String → m (Except FileError String)
  /-- Creates a file or replaces its text. -/
  write : String → String → m (Except FileError Unit)
  /-- Creates a directory inside of one that exists. -/
  createDirectory : String → m (Except FileError Unit)
  /-- Whether there is a directory at a path. -/
  isDirectory : String → m Bool
  /-- Whether there is anything at a path. -/
  pathExists : String → m (Except FileError Bool)
  /-- The names in a directory, or nothing if the path is not that of a directory. -/
  namesIn : String → m (Except FileError (Option (List String)))

namespace Files

variable {m : Type → Type} [Monad m] [Files m]

/-- Forgives a request to create a directory that is there. -/
def orPresent (path : String) (result : Except FileError Unit) : m (Except FileError Unit) := do
  match result with
  | .ok () => return .ok ()
  | .error error => return if ← isDirectory path then .ok () else .error error

/-- Creates the first of some directories, each inside of the next. Where the next one
is missing it is created before. -/
def createInside : List String → m (Except FileError Unit)
  | [] => return .ok ()
  | path :: around => do
    match ← (createDirectory path : m _) with
    | .error .notFound =>
      match ← createInside around with
      | .ok () => orPresent path (← createDirectory path)
      | .error error => return .error error
    | result => orPresent path result

/-- Creates a directory and those around it, as far as they are missing. Those that were
created before a failure remain. -/
def createDirectories (path : String) : m (Except FileError Unit) :=
  createInside (FilePath.lineage path)

end Files

end MappingForms
