import MappingForms.TextDiff.Compaction
import MappingForms.TextDiff.Search

/-!
Contract: the difference between two texts in unified form.

Owns: the changes between kept stretches, their grouping into hunks with a few lines
of context, and the layout of hunks.
-/

set_option autoImplicit false

namespace MappingForms.TextDiff

/-- A kept stretch of both sequences, or one where old lines give way to new ones. -/
structure Change where
  isKept : Bool
  oldStart : Nat
  oldStop : Nat
  newStart : Nat
  newStop : Nat
deriving DecidableEq

namespace Change

def ofEdit (edit : Edit) : Change where
  isKept := edit.kind == .equal
  oldStart := edit.oldStart
  oldStop := edit.oldStop
  newStart := edit.newStart
  newStop := edit.newStop

def length (change : Change) : Nat := change.oldStop - change.oldStart

private def lastLines (change : Change) (count : Nat) : Change :=
  let dropped := change.length - count
  { change with
    oldStart := change.oldStart + dropped
    newStart := change.newStart + dropped }

private def firstLines (change : Change) (count : Nat) : Change :=
  let dropped := change.length - count
  { change with oldStop := change.oldStop - dropped, newStop := change.newStop - dropped }

end Change

/-- A deletion and an insertion that may stand beside each other. -/
structure Pending where
  deletion : Option Edit := none
  insertion : Option Edit := none

namespace Pending

/-- Joins an edit with one of its kind. -/
def joined (first : Option Edit) (second : Edit) : Option Edit :=
  some (match first with
    | some first => { first with length := first.length + second.length }
    | none => second)

def add (pending : Pending) (edit : Edit) : Pending :=
  match edit.kind with
  | .delete => { pending with deletion := joined pending.deletion edit }
  | .insert => { pending with insertion := joined pending.insertion edit }
  | .equal => pending

def change (pending : Pending) : List Change :=
  match pending.deletion, pending.insertion with
  | some deletion, some insertion =>
    [{ isKept := false
       oldStart := deletion.oldStart
       oldStop := deletion.oldStop
       newStart := insertion.newStart
       newStop := insertion.newStop }]
  | some deletion, none => [.ofEdit deletion]
  | none, some insertion => [.ofEdit insertion]
  | none, none => []

end Pending

/-- Joins neighbouring kept stretches, and the deletions and insertions between
them. -/
def changesOf (kept : Option Edit) (pending : Pending) : List Edit → List Change
  | [] => (kept.map Change.ofEdit).toList ++ pending.change
  | edit :: rest =>
    if edit.kind = .equal then
      pending.change ++ changesOf (Pending.joined kept edit) {} rest
    else
      (kept.map Change.ofEdit).toList ++ changesOf none (pending.add edit) rest

private def contextLines : Nat := 3

private def trimFirst : List Change → List Change
  | first :: rest => if first.isKept then first.lastLines contextLines :: rest else first :: rest
  | [] => []

private def trimLast (changes : List Change) : List Change :=
  match changes.reverse with
  | last :: rest =>
    if last.isKept then (last.firstLines contextLines :: rest).reverse else changes
  | [] => []

private def groupIfAny (group : List Change) : List (List Change) :=
  match group with
  | [] => []
  | [change] => if change.isKept then [] else [group]
  | _ => [group]

/-- Divides changes into groups, given the changes of the current group, last one
first. A kept stretch that is longer than the context of two changes is cut in two. -/
def groupChanges (group : List Change) : List Change → List (List Change)
  | [] => groupIfAny group.reverse
  | change :: rest =>
    if change.isKept ∧ change.length > 2 * contextLines then
      (change.firstLines contextLines :: group).reverse ::
        groupChanges [change.lastLines contextLines] rest
    else
      groupChanges (change :: group) rest

/-- The range of lines from a start, as it stands in the header of a hunk. An empty
range names the line before it. -/
private def rangeText (start stop : Nat) : String :=
  match stop - start with
  | 0 => toString start ++ ",0"
  | 1 => toString (start + 1)
  | length => toString (start + 1) ++ "," ++ toString length

private def hunkHeader (group : List Change) : String :=
  match group.head?, group.getLast? with
  | some first, some last =>
    "@@ -" ++ rangeText first.oldStart last.oldStop ++ " +" ++
      rangeText first.newStart last.newStop ++ " @@\n"
  | _, _ => ""

/-- A line with its mark. What lacks a line break is followed by a note. -/
private def markedLine (mark : String) (line : String) : String :=
  let isEnded := line.toList.getLast? == some '\n' || line.toList.getLast? == some '\r'
  mark ++ line ++ if isEnded then "" else "\n\\ No newline at end of file\n"

private def markedLines (mark : String) (lines : Array String) (start stop : Nat) : String :=
  String.join ((lines.toList.drop start).take (stop - start) |>.map (markedLine mark))

private def changeText (sides : Sides) (change : Change) : String :=
  if change.isKept then markedLines " " sides.old change.oldStart change.oldStop
  else
    markedLines "-" sides.old change.oldStart change.oldStop ++
      markedLines "+" sides.new change.newStart change.newStop

def hunkText (sides : Sides) (group : List Change) : String :=
  hunkHeader group ++ String.join (group.map (changeText sides))

/-- The difference between two texts, under the names of the old and the new file. -/
def unified (oldName newName oldText newText : String) : String :=
  let sides : Sides := { old := (linesOf oldText).toArray, new := (linesOf newText).toArray }
  let changes := changesOf none {} (compact sides (shortestEdits sides))
  let hunks := (groupChanges [] (trimLast (trimFirst changes))).map (hunkText sides)
  if hunks.isEmpty then ""
  else "--- " ++ oldName ++ "\n+++ " ++ newName ++ "\n" ++ String.join hunks

end MappingForms.TextDiff
