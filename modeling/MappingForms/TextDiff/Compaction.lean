import MappingForms.TextDiff

/-!
Contract: moving the edits of a script together.

Owns: the moves of an edit up and down a script, and the sweep over all deletions and
then all insertions.

An insertion moves over lines that are kept if the lines which it inserts can be read
as starting that much earlier or later. Edits of one kind that meet are joined.
-/

set_option autoImplicit false

namespace MappingForms.TextDiff

/-- A script around one of its edits. The edits before it come last one first. -/
structure Focus where
  before : List Edit
  edit : Edit
  after : List Edit

namespace Edit

def isEmpty (edit : Edit) : Bool := edit.length == 0

private def shiftedUp (edit : Edit) (count : Nat) : Edit :=
  { edit with oldStart := edit.oldStart - count, newStart := edit.newStart - count }

private def shiftedDown (edit : Edit) (count : Nat) : Edit :=
  { edit with oldStart := edit.oldStart + count, newStart := edit.newStart + count }

private def grownUp (edit : Edit) (count : Nat) : Edit :=
  { edit.shiftedUp count with length := edit.length + count }

private def grownDown (edit : Edit) (count : Nat) : Edit :=
  { edit with length := edit.length + count }

private def shortened (edit : Edit) (count : Nat) : Edit :=
  { edit with length := edit.length - count }

private def shortenedAbove (edit : Edit) (count : Nat) : Edit :=
  { edit.shiftedDown count with length := edit.length - count }

end Edit

/-- The number of lines at the end of kept lines that are also at the end of what an
edit inserts. -/
private def overlapAbove (sides : Sides) (kept edit : Edit) : Nat :=
  sides.commonBackward kept.oldStop edit.newStop (min kept.oldLength edit.newLength)

/-- The number of lines at the beginning of kept lines that are also at the beginning
of what an edit inserts. -/
private def overlapBelow (sides : Sides) (kept edit : Edit) : Nat :=
  sides.commonForward kept.oldStart edit.newStart (min kept.oldLength edit.newLength)

/-- Puts kept lines in front of a script. -/
private def prependKept (kept : Edit) : List Edit → List Edit
  | first :: rest =>
    if first.kind = .equal then first.grownUp kept.length :: rest else kept :: first :: rest
  | [] => [kept]

/-- Puts kept lines behind a script, whose last edit comes first. -/
private def appendKept (kept : Edit) : List Edit → List Edit
  | last :: rest =>
    if last.kind = .equal then last.grownDown kept.length :: rest else kept :: last :: rest
  | [] => [kept]

/-- Moves an edit up as far as it goes, in at most as many steps as the fuel says. -/
private def moveUp (sides : Sides) : Nat → Focus → Focus
  | 0, focus => focus
  | fuel + 1, focus =>
    match focus.before with
    | [] => focus
    | previous :: above =>
      if previous.kind = .equal then
        let count := overlapAbove sides previous focus.edit
        if count > 0 then
          let kept : Edit :=
            { kind := .equal
              oldStart := previous.oldStop - count
              newStart := focus.edit.newStop - count
              length := count }
          let shorter := previous.shortened count
          moveUp sides fuel
            { before := if shorter.isEmpty then above else shorter :: above
              edit := focus.edit.shiftedUp count
              after := prependKept kept focus.after }
        else if previous.isEmpty then moveUp sides fuel { focus with before := above }
        else focus
      else if previous.kind = focus.edit.kind then
        moveUp sides fuel
          { focus with before := above, edit := previous.grownDown focus.edit.length }
      else
        moveUp sides fuel { focus with before := above, after := previous :: focus.after }

/-- Moves an edit down as far as it goes, in at most as many steps as the fuel says. -/
private def moveDown (sides : Sides) : Nat → Focus → Focus
  | 0, focus => focus
  | fuel + 1, focus =>
    match focus.after with
    | [] => focus
    | following :: below =>
      if following.kind = .equal then
        let count := overlapBelow sides following focus.edit
        if count > 0 then
          let kept : Edit :=
            { kind := .equal
              oldStart := following.oldStart
              newStart := focus.edit.newStart
              length := count }
          let shorter := following.shortenedAbove count
          moveDown sides fuel
            { before := appendKept kept focus.before
              edit := focus.edit.shiftedDown count
              after := if shorter.isEmpty then below else shorter :: below }
        else if following.isEmpty then moveDown sides fuel { focus with after := below }
        else focus
      else if following.kind = focus.edit.kind then
        moveDown sides fuel
          { focus with edit := focus.edit.grownDown following.length, after := below }
      else
        moveDown sides fuel { focus with before := following :: focus.before, after := below }

/-- Moves each edit of a kind up and then down, from the first to the last. -/
private def sweep (sides : Sides) (kind : EditKind) (bound : Nat) (before : List Edit) :
    Nat → List Edit → List Edit
  | 0, after => before.reverse ++ after
  | _ + 1, [] => before.reverse
  | fuel + 1, edit :: after =>
    if edit.kind = kind then
      let focus := moveDown sides bound (moveUp sides bound { before, edit, after })
      sweep sides kind bound (focus.edit :: focus.before) fuel focus.after
    else
      sweep sides kind bound (edit :: before) fuel after

/-- Moves all deletions and then all insertions. No move takes more steps than there
are lines and edits. -/
def compact (sides : Sides) (edits : List Edit) : List Edit :=
  let bound := sides.old.size + sides.new.size + edits.length + 1
  let deletionsMoved := sweep sides .delete bound [] bound edits
  sweep sides .insert bound [] bound deletionsMoved

end MappingForms.TextDiff
