import MappingForms.CommandLine

/-!
Contract: the program.

Owns: the file system of the host and the standard streams.
-/

set_option autoImplicit false

namespace MappingForms

def hostError : IO.Error → FileError
  | .noFileOrDirectory .. => .notFound
  | _ => .refused

def hostRequest {α : Type} (request : IO α) : IO (Except FileError α) := do
  match ← request.toBaseIO with
  | .ok value => return .ok value
  | .error error => return .error (hostError error)

instance : Files IO where
  read path := hostRequest (IO.FS.readFile path)
  write path text := hostRequest (IO.FS.writeFile path text)
  createDirectory path := hostRequest (IO.FS.createDir path)
  isDirectory path := do
    match ← hostRequest (IO.FS.realPath path >>= fun found => found.isDir) with
    | .ok found => return found
    | .error _ => return false
  pathExists path := do
    match ← hostRequest (IO.FS.realPath path >>= fun found => found.metadata) with
    | .ok _ => return .ok true
    | .error .notFound => return .ok false
    | .error error => return .error error
  namesIn path := do
    match ← hostRequest (IO.FS.realPath path) with
    | .error _ => return .ok none
    | .ok found =>
      if ← found.isDir then
        hostRequest do return some ((← found.readDir).toList.map (·.fileName))
      else
        return .ok none

end MappingForms

def main (arguments : List String) : IO UInt32 := do
  let outcome : MappingForms.Outcome ← MappingForms.CommandLine.run arguments
  (← IO.getStdout).putStr outcome.output
  (← IO.getStderr).putStr outcome.errors
  return outcome.exitCode
