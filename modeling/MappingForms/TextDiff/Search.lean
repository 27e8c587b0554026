import MappingForms.TextDiff

/-!
Contract: a shortest edit script between two sequences of lines.

Owns: the search for a point in the middle of a shortest script from both ends at
once, and the division of the problem at that point.

The search runs in rounds. In round `d` the furthest points with `d` edits are known
for the diagonals from `-d` to `d` in steps of two; they are kept in this order.
-/

set_option autoImplicit false

namespace MappingForms.TextDiff

/-- A part of each of the two sequences. -/
structure Window where
  oldStart : Nat
  oldStop : Nat
  newStart : Nat
  newStop : Nat

namespace Window

def oldLength (window : Window) : Nat := window.oldStop - window.oldStart

def newLength (window : Window) : Nat := window.newStop - window.newStart

private def surplus (window : Window) : Int := (window.oldLength : Int) - window.newLength

private def roundLimit (window : Window) : Nat :=
  (window.oldLength + window.newLength + 1) / 2 + 1

end Window

/-- The furthest points of one round, from the lowest diagonal to the highest. Each is
the number of old lines that it lies behind. -/
abbrev Frontier := Array Nat

/-- The number of new lines that a point lies behind: on the diagonal at a position of
a round, old lines exceed new lines by `2 * position - round`. -/
private def newOf (round position point : Nat) : Nat := point + round - 2 * position

/-- Where a round starts on its diagonal at a position: from the furthest point of the
round before on one of the two neighbouring diagonals, one old line further if it comes
from the lower one. The first round starts at the corner. -/
def startOf (previous : Frontier) (round position : Nat) : Nat :=
  if position = 0 then previous.getD 0 0
  else
    let lower := previous.getD (position - 1) 0
    if position = round then lower + 1
    else
      let upper := previous.getD position 0
      if lower < upper then upper else lower + 1

/-- Goes towards the end from points counted from the beginning. -/
private def advanceForward (sides : Sides) (window : Window) (start newStart : Nat) : Nat :=
  sides.commonForward (window.oldStart + start) (window.newStart + newStart)
    (min (window.oldLength - start) (window.newLength - newStart))

/-- Goes towards the beginning from points counted from the end. -/
private def advanceBackward (sides : Sides) (window : Window) (start newStart : Nat) : Nat :=
  sides.commonBackward (window.oldStop - start) (window.newStop - newStart)
    (min (window.oldLength - start) (window.newLength - newStart))

/-- Where the same lines lead to from the start on a diagonal. -/
private def furthestOf (advance : Nat → Nat → Nat) (oldLength newLength : Nat) (previous : Frontier)
    (round position : Nat) : Nat :=
  let start := startOf previous round position
  let newStart := newOf round position start
  if start < oldLength ∧ newStart < newLength then start + advance start newStart else start

def extend (advance : Nat → Nat → Nat) (oldLength newLength : Nat) (previous : Frontier)
    (round : Nat) (reached : Frontier) : Nat → Frontier
  | 0 => reached
  | missing + 1 =>
    let point := furthestOf advance oldLength newLength previous round reached.size
    extend advance oldLength newLength previous round (reached.push point) missing

private def frontier (advance : Nat → Nat → Nat) (window : Window) (previous : Frontier)
    (round : Nat) : Frontier :=
  extend advance window.oldLength window.newLength previous round #[] (round + 1)

/-- The highest position below a limit at which a frontier meets the one from the other
corner. On one diagonal the positions of the two frontiers have a fixed sum, so where the
other frontier ends there is nothing to meet further down. -/
private def meetingBelow (oldLength : Nat) (reached opposite : Frontier) (sum : Nat) :
    Nat → Option Nat
  | 0 => none
  | position + 1 =>
    match opposite[sum - position]? with
    | none => none
    | some met =>
      if oldLength ≤ reached.getD position 0 + met then some position
      else meetingBelow oldLength reached opposite sum position

private def meeting? (window : Window) (reached : Frontier) (round : Nat) (opposite : Frontier)
    (oppositeRound : Nat) : Option Nat :=
  let sum := (window.surplus + round + oppositeRound) / 2
  if 0 ≤ sum then
    meetingBelow window.oldLength reached opposite sum.toNat (min round sum.toNat + 1)
  else
    none

/-- Searches round after round for a point to divide at. Paths from the two corners
can only meet in a forward step if the surplus is odd, and in a backward step if it is
even. -/
private def searchMiddle (sides : Sides) (window : Window) (forward backward : Frontier)
    (round : Nat) : Nat → Option (Nat × Nat)
  | 0 => none
  | rounds + 1 =>
    let isOdd := window.surplus % 2 ≠ 0
    let ahead := frontier (advanceForward sides window) window forward round
    let found :=
      if isOdd ∧ round > 0 then meeting? window ahead round backward (round - 1) else none
    match found with
    | some position =>
      let start := startOf forward round position
      some (window.oldStart + start, window.newStart + newOf round position start)
    | none =>
      let behind := frontier (advanceBackward sides window) window backward round
      let found := if isOdd then none else meeting? window behind round ahead round
      match found with
      | some position =>
        let point := behind.getD position 0
        some (window.oldStop - point, window.newStop - newOf round position point)
      | none => searchMiddle sides window ahead behind (round + 1) rounds

def middle? (sides : Sides) (window : Window) : Option (Nat × Nat) :=
  searchMiddle sides window #[] #[] 0 window.roundLimit

private def editIfAny (kind : EditKind) (oldStart newStart length : Nat) : List Edit :=
  if length = 0 then [] else [{ kind, oldStart, newStart, length }]

/-- The edits of a window, divided at most as often as the fuel says. Lines that the
parts have in common at their beginning and at their end are taken off first. -/
def editsOf (sides : Sides) : Nat → Window → List Edit
  | fuel, window =>
    let leading := sides.commonForward window.oldStart window.newStart
      (min window.oldLength window.newLength)
    let inner : Window :=
      { window with
        oldStart := window.oldStart + leading
        newStart := window.newStart + leading }
    let trailing := sides.commonBackward inner.oldStop inner.newStop
      (min inner.oldLength inner.newLength)
    let core : Window :=
      { inner with oldStop := inner.oldStop - trailing, newStop := inner.newStop - trailing }
    let deletion := editIfAny .delete core.oldStart core.newStart core.oldLength
    let insertion := editIfAny .insert core.oldStart core.newStart core.newLength
    let changes :=
      if core.oldLength = 0 ∨ core.newLength = 0 then deletion ++ insertion
      else match fuel, middle? sides core with
        | fuel + 1, some (oldMiddle, newMiddle) =>
          editsOf sides fuel { core with oldStop := oldMiddle, newStop := newMiddle } ++
            editsOf sides fuel { core with oldStart := oldMiddle, newStart := newMiddle }
        | _, _ => deletion ++ insertion
    editIfAny .equal window.oldStart window.newStart leading ++ changes ++
      editIfAny .equal core.oldStop core.newStop trailing

def shortestEdits (sides : Sides) : List Edit :=
  editsOf sides (sides.old.size + sides.new.size)
    { oldStart := 0, oldStop := sides.old.size, newStart := 0, newStop := sides.new.size }

end MappingForms.TextDiff
