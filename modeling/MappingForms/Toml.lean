import MappingForms.Binary64
import MappingForms.Toml.Moment

/-!
Contract: the values of a TOML document, and how its lines build up tables.

Owns: the value type and the rules on which table a header or a key may still add
to.
-/

set_option autoImplicit false

namespace MappingForms

namespace Toml

inductive Origin where
  /-- By a header of its own, or as the document itself. -/
  | header
  /-- On the way of a longer header. -/
  | passed
  /-- On the way of a dotted key. -/
  | dotted
  /-- Between braces. -/
  | inline
deriving DecidableEq

end Toml

inductive Toml where
  | string (value : String)
  | integer (value : Int)
  | float (value : Binary64)
  | moment (value : Toml.Moment)
  | bool (value : Bool)
  | array (elements : List Toml)
  | table (origin : Toml.Origin) (entries : List (String × Toml))

namespace Toml

abbrev Entries := List (String × Toml)

namespace Entries

/-- Replaces the value of a key, or adds the key. -/
def set (entries : Entries) (key : String) (value : Toml) : Entries :=
  match entries with
  | [] => [(key, value)]
  | (other, old) :: rest =>
    if other = key then (key, value) :: rest else (other, old) :: set rest key value

end Entries

/-- A change to the entries of a table that came about in some way. -/
abbrev Change := Origin → Entries → Option (Origin × Entries)

/-- Applies a change to the table at a path. Tables that are missing on the way are
added. The way does not lead through values, and that of a dotted key not through
tables with a header of their own. -/
private def descend (added : Origin) (change : Change) : List String → Change
  | [], origin, entries => change origin entries
  | key :: path, origin, entries =>
    match entries.lookup key with
    | none =>
      (descend added change path added []).map fun (inner, below) =>
        (origin, entries.set key (.table inner below))
    | some (.table inner below) =>
      if inner = .inline ∨ (added = .dotted ∧ inner = .header) then none
      else
        (descend added change path inner below).map fun (inner, below) =>
          (origin, entries.set key (.table inner below))
    | some _ => none

private def changeAt (change : Change) : List String → Change
  | [], origin, entries => change origin entries
  | key :: path, origin, entries =>
    match entries.lookup key with
    | some (.table inner below) =>
      (changeAt change path inner below).map fun (inner, below) =>
        (origin, entries.set key (.table inner below))
    | _ => none

/-- Gives a table its header. Only a table that was passed on the way of another
header may exist before. -/
private def openTable (key : String) : Change := fun origin entries =>
  match entries.lookup key with
  | none => some (origin, entries.set key (.table .header []))
  | some (.table .passed below) => some (origin, entries.set key (.table .header below))
  | some _ => none

/-- Sets a key that is not set. At the end of a dotted way the table must come from
dotted keys alone. -/
private def setKey (isDotted : Bool) (key : String) (value : Toml) : Change := fun origin entries =>
  if isDotted && origin != .dotted then none
  else match entries.lookup key with
    | none => some (origin, entries.set key value)
    | some _ => none

private def splitLast : List String → Option (List String × String)
  | [] => none
  | [last] => some ([], last)
  | first :: rest => (splitLast rest).map fun (path, last) => (first :: path, last)

/-- Adds a key with dots between its parts and its value to a table. -/
def assign (path : List String) (value : Toml) : Change := fun origin entries =>
  (splitLast path).bind fun (way, key) =>
    descend .dotted (setKey (!way.isEmpty) key value) way origin entries

/-- A table between braces with the given assignments. Nothing adds to a table that
was set before, so only tables of dotted keys grow. -/
def inlineTable (assignments : List (List String × Toml)) : Option Toml :=
  let add (table : Origin × Entries) (assignment : List String × Toml) :=
    assign assignment.1 assignment.2 table.1 table.2
  (assignments.foldlM add (.inline, [])).map fun (_, entries) => .table .inline entries

/-- A document with the table that assignments go to. -/
structure Document where
  entries : Entries := []
  current : List String := []

namespace Document

def header (document : Document) (path : List String) : Option Document :=
  (splitLast path).bind fun (way, key) =>
    (descend .passed (openTable key) way .header document.entries).map fun (_, entries) =>
      { entries, current := path }

def assign (document : Document) (path : List String) (value : Toml) : Option Document :=
  (changeAt (Toml.assign path value) document.current .header document.entries).map
    fun (_, entries) => { document with entries }

end Document

end Toml

end MappingForms
