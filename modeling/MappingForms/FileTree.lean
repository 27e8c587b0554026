import MappingForms.FilePath
import MappingForms.Files
import MappingForms.Table

/-!
Contract: a file system in memory.

Owns: the tree of files and directories below a working directory, and the requests
on it.

A path is followed step by step from the working directory, so every directory on the
way must exist, also one that two dots leave again. The directories above the working
directory are there, and nothing else is known to be in them.
-/

set_option autoImplicit false

namespace MappingForms

inductive FileNode where
  | file (text : String)
  | directory
deriving DecidableEq

/-- The files and directories around a working directory, each under the names that
lead to it. Two dots come first in the names of what is not below it. -/
structure FileTree where
  nodes : Table (List String) FileNode := ∅

namespace FileTree

/-- Whether a place is that of the working directory or of one above it. -/
def isGiven (place : List String) : Bool := place.all (· == "..")

def node? (tree : FileTree) (place : List String) : Option FileNode :=
  if isGiven place then some .directory else tree.nodes.get? place

def put (tree : FileTree) (place : List String) (node : FileNode) : FileTree :=
  { nodes := tree.nodes.insert place node }

def erase (tree : FileTree) (place : List String) : FileTree :=
  { nodes :=
      { entries := tree.nodes.entries.filter fun (other, _) => other != place
        ordered := tree.nodes.ordered.filter _ } }

/-- Whether a name or a path is too long or holds a null character. -/
def isMalformed (path : String) : Bool :=
  path.toList.contains '\x00' || path.utf8ByteSize > FilePath.pathLimit

/-- Goes one step from a directory. -/
def enter (place : List String) (step : String) : Except FileError (List String) :=
  if step = ".." then .ok (if isGiven place then place ++ [step] else place.dropLast)
  else if step.utf8ByteSize > FilePath.nameLimit then .error .refused
  else .ok (place ++ [step])

def requireDirectory (tree : FileTree) (place : List String) : Except FileError Unit :=
  match tree.node? place with
  | some .directory => .ok ()
  | some (.file _) => .error .refused
  | none => .error .notFound

/-- Follows steps from a place. All places on the way must be directories; the last
one need not exist. -/
def follow (tree : FileTree) (place : List String) : List String →
    Except FileError (List String)
  | [] => .ok place
  | step :: rest => do
    tree.requireDirectory place
    tree.follow (← enter place step) rest

/-- The place of a path. A path that can only mean a directory must be that of one if
there is anything. -/
def locate (tree : FileTree) (path : String) : Except FileError (List String) := do
  if isMalformed path then throw .refused
  if path.isEmpty || FilePath.isAbsolute path then throw .notFound
  let place ← tree.follow [] (FilePath.steps path)
  match tree.node? place with
  | some (.file _) => if FilePath.namesDirectory path then throw .refused else return place
  | _ => return place

def read (tree : FileTree) (path : String) : Except FileError String := do
  match tree.node? (← tree.locate path) with
  | some (.file text) => return text
  | some .directory => throw .refused
  | none => throw .notFound

def write (tree : FileTree) (path text : String) : Except FileError FileTree := do
  let place ← tree.locate path
  match tree.node? place with
  | some .directory => throw .refused
  | some (.file _) => return tree.put place (.file text)
  | none =>
    if FilePath.namesDirectory path then throw .refused
    else return tree.put place (.file text)

/-- The tree with a directory created. A dot at the end of a path creates nothing. -/
def createDirectory (tree : FileTree) (path : String) : Except FileError FileTree := do
  let place ← tree.locate path
  match tree.node? place with
  | some _ => throw .refused
  | none =>
    if FilePath.endsWithDot path then throw .notFound
    else return tree.put place .directory

def remove (tree : FileTree) (path : String) : Except FileError FileTree := do
  let place ← tree.locate path
  match tree.node? place with
  | some (.file _) => return tree.erase place
  | some .directory => throw .refused
  | none => throw .notFound

def pathExists (tree : FileTree) (path : String) : Except FileError Bool :=
  match tree.locate path with
  | .ok place => .ok (tree.node? place).isSome
  | .error .notFound => .ok false
  | .error error => .error error

def isDirectory (tree : FileTree) (path : String) : Bool :=
  match tree.locate path with
  | .ok place => tree.node? place == some .directory
  | .error _ => false

def namesIn (tree : FileTree) (path : String) : Option (List String) :=
  match tree.locate path with
  | .error _ => none
  | .ok place =>
    match tree.node? place with
    | some .directory => some (tree.nodes.keys.filterMap fun other =>
        match other.getLast? with
        | some name => if other.dropLast = place then some name else none
        | none => none)
    | _ => none

def files (tree : FileTree) : List (List String × String) :=
  tree.nodes.entries.filterMap fun (place, node) =>
    match node with
    | .file text => if place.head? == some ".." then none else some (place, text)
    | .directory => none

end FileTree

/-- Requests to a tree of files, one after the other. -/
abbrev Workspace := StateM FileTree

namespace Workspace

/-- A request that changes the tree if it is met. -/
def attempt (change : FileTree → Except FileError FileTree) :
    Workspace (Except FileError Unit) := fun tree =>
  match change tree with
  | .ok changed => (.ok (), changed)
  | .error error => (.error error, tree)

instance : Files Workspace where
  read path := do return (← get).read path
  write path text := attempt fun tree => tree.write path text
  createDirectory path := attempt fun tree => tree.createDirectory path
  isDirectory path := do return (← get).isDirectory path
  pathExists path := do return (← get).pathExists path
  namesIn path := do return .ok ((← get).namesIn path)

end Workspace

end MappingForms
