import MappingForms.Toml.Scan.Moment
import MappingForms.Toml.Scan.Number
import MappingForms.Toml.Scan.Text

/-!
Contract: reading a TOML text.

Owns: the scanners for values, arrays and tables between braces, and the reading of a
whole document line by line.
-/

set_option autoImplicit false

namespace MappingForms.Toml

namespace Scan

/-! ## Values -/

/-- The elements of an array after those before, last one first. -/
def elements (value : Scan Toml) (before : List Toml) : Nat → Scan (List Toml)
  | 0 => failure
  | fuel + 1 => do
    filler (← steps)
    if ← startsWith "]" then
      skip 1
      return before.reverse
    let element ← value
    filler (← steps)
    if ← startsWith "," then
      skip 1
      elements value (element :: before) fuel
    else
      expect "]"
      return (element :: before).reverse

def assignment (value : Scan Toml) : Scan (List String × Toml) := do
  let path ← key
  expect "="
  blanks
  let content ← value
  blanks
  return (path, content)

/-- The assignments between braces after those before, last one first. -/
def assignments (value : Scan Toml) (before : List (List String × Toml)) :
    Nat → Scan (List (List String × Toml))
  | 0 => failure
  | fuel + 1 => do
    let found ← assignment value
    if ← startsWith "," then
      skip 1
      assignments value (found :: before) fuel
    else
      expect "\x7d"
      return (found :: before).reverse

def depthLimit : Nat := 79

def scalar : Scan Toml := do
  match ← peek with
  | some '"' => return .string (← string)
  | some '\'' => return .string (← string)
  | some 't' =>
    expect "true"
    return .bool true
  | some 'f' =>
    expect "false"
    return .bool false
  | _ => (.moment <$> moment) <|> number

/-- A value that nests within the given levels. -/
def value : Nat → Scan Toml
  | 0 => scalar
  | levels + 1 => do
    match ← peek with
    | some '[' =>
      skip 1
      return .array (← elements (value levels) [] (← steps))
    | some '\x7b' =>
      skip 1
      blanks
      if ← startsWith "\x7d" then
        skip 1
        inlineTable []
      else
        inlineTable (← assignments (value levels) [] (← steps))
    | _ => scalar

/-! ## Documents -/

/-- One line: a header, an assignment or nothing. -/
def line (document : Document) : Scan Document := do
  blanks
  match ← peek with
  | some '[' =>
    skip 1
    let path ← key
    expect "]"
    lineEnd
    document.header path
  | none => return document
  | some c =>
    if c == '#' || c == '\n' || c == '\r' then
      lineEnd
      return document
    else
      let (path, content) ← assignment (value depthLimit)
      lineEnd
      document.assign path content

def lines (document : Document) : Nat → Scan Document
  | 0 => failure
  | fuel + 1 => do
    if (← get).isEmpty then return document
    lines (← line document) fuel

def document : Scan Document := do lines {} (← steps)

end Scan

/-- The entries of the document that a text holds. A byte order mark at its start is
skipped. -/
def parse? (text : String) : Option Entries :=
  let content := match text.toList with
    | '\ufeff' :: rest => rest
    | content => content
  (Scan.run? Scan.document content).map (·.entries)

end MappingForms.Toml
