/-!
Contract: paths of files as texts.

Owns: joining paths, the paths of the directories around a file, and the steps that a
path takes.

Paths keep the text that they were given in, because messages show it. Empty pieces and
single dots between slashes take no step.
-/

set_option autoImplicit false

namespace MappingForms

namespace FilePath

def isAbsolute (path : String) : Bool := path.toList.head? == some '/'

/-- Divides characters at slashes, after the given characters of a piece, last one
first. -/
def splitPieces (before : List Char) : List Char → List String
  | [] => [String.ofList before.reverse]
  | c :: rest =>
    if c = '/' then String.ofList before.reverse :: splitPieces [] rest
    else splitPieces (c :: before) rest

/-- The texts between the slashes of a path. -/
def pieces (path : String) : List String := splitPieces [] path.toList

def isStep (piece : String) : Bool := piece != "" && piece != "."

/-- The names that a path goes through, in order. -/
def steps (path : String) : List String := (pieces path).filter isStep

/-- Whether the path can only mean a directory: it ends with a slash or with dots. -/
def namesDirectory (path : String) : Bool :=
  match (pieces path).getLast? with
  | some last => !isStep last || last == ".."
  | none => false

/-- Whether a single dot stands at the end of the path, slashes apart. -/
def endsWithDot (path : String) : Bool :=
  ((pieces path).filter (· != "")).getLast? == some "."

/-- A path below another one. An absolute path stands for itself. -/
def join (base path : String) : String :=
  if isAbsolute path then path
  else if base.isEmpty || base.toList.getLast? == some '/' then base ++ path
  else base ++ "/" ++ path

private def dropTrailing (pieces : List String) : List String :=
  (pieces.reverse.dropWhile fun piece => !isStep piece).reverse

/-- The part of a path that is no step but counts: a slash or a dot at its start. -/
private def anchor : List Char → List Char × List Char
  | '/' :: rest => (['/'], rest)
  | ['.'] => (['.'], [])
  | '.' :: '/' :: rest => (['.'], '/' :: rest)
  | text => ([], text)

/-- The path without its last step. -/
def parent? (path : String) : Option String :=
  let (start, rest) := anchor path.toList
  let body := splitPieces [] rest
  match (dropTrailing body).reverse with
  | [] => if start = ['.'] then some "" else none
  | _ :: above =>
    let kept := dropTrailing above.reverse
    some (String.ofList start ++ "/".intercalate kept)

/-- A path and those around it, from the inside out, without the empty one. -/
def around : Nat → String → List String
  | 0, _ => []
  | length + 1, path =>
    if path.isEmpty then []
    else match parent? path with
      | some above => path :: around length above
      | none => [path]

/-- A path and those around it, from the inside out. A parent is shorter than the path
itself, so there are at most as many as the path has characters. -/
def lineage (path : String) : List String := around path.length path

/-- The path of the directory that a file is in, as it is written in front of other
names. -/
def directoryOf (path : String) : String :=
  match parent? path with
  | some "" => "."
  | some directory => directory
  | none => "."

/-- The longest name and the longest path, in bytes. -/
def nameLimit : Nat := 255

@[inherit_doc nameLimit]
def pathLimit : Nat := 4095

end FilePath

end MappingForms
