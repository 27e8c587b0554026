/-!
Contract: the lines of a text, and edits between two sequences of lines.

Owns: the division into lines, the edit type and the common beginnings and ends of
two stretches.

An edit notes where it stands in the old and in the new lines. Positions are those at
the time when the edit was found; an edit that later changes places with another one
keeps them.
-/

set_option autoImplicit false

namespace MappingForms

namespace TextDiff

/-- Divides characters into lines after the given characters of a line, last one
first. A line ends with a line feed, a carriage return or both, which belong to it. -/
def splitLines (before : List Char) : List Char → List String
  | [] => if before.isEmpty then [] else [String.ofList before.reverse]
  | '\r' :: '\n' :: rest => String.ofList ('\n' :: '\r' :: before).reverse :: splitLines [] rest
  | c :: rest =>
    if c = '\n' ∨ c = '\r' then String.ofList (c :: before).reverse :: splitLines [] rest
    else splitLines (c :: before) rest

def linesOf (text : String) : List String := splitLines [] text.toList

inductive EditKind where
  | equal
  | delete
  | insert
deriving DecidableEq

/-- A stretch of lines that is kept, deleted or inserted. -/
structure Edit where
  kind : EditKind
  /-- The first line of the stretch in the old lines, or the line before which to
  insert. -/
  oldStart : Nat
  /-- The first line of the stretch in the new lines, or the line before which lines
  are missing. -/
  newStart : Nat
  length : Nat
deriving DecidableEq

namespace Edit

def oldLength (edit : Edit) : Nat := if edit.kind = .insert then 0 else edit.length

def newLength (edit : Edit) : Nat := if edit.kind = .delete then 0 else edit.length

def oldStop (edit : Edit) : Nat := edit.oldStart + edit.oldLength

def newStop (edit : Edit) : Nat := edit.newStart + edit.newLength

end Edit

/-- The two sequences that are compared. -/
structure Sides where
  old : Array String
  new : Array String

namespace Sides

def same (sides : Sides) (oldIndex newIndex : Nat) : Bool :=
  match sides.old[oldIndex]?, sides.new[newIndex]? with
  | some old, some new => old == new
  | _, _ => false

/-- How many lines from the given ones on are the same, up to a limit. -/
def commonForward (sides : Sides) (oldStart newStart : Nat) : Nat → Nat
  | 0 => 0
  | limit + 1 =>
    if sides.same oldStart newStart then
      sides.commonForward (oldStart + 1) (newStart + 1) limit + 1
    else
      0

/-- How many lines before the given ones are the same, up to a limit. -/
def commonBackward (sides : Sides) (oldStop newStop : Nat) : Nat → Nat
  | 0 => 0
  | limit + 1 =>
    if sides.same (oldStop - 1) (newStop - 1) then
      sides.commonBackward (oldStop - 1) (newStop - 1) limit + 1
    else
      0

end Sides

end TextDiff

end MappingForms
