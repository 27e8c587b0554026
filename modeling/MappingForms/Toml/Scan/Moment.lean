import MappingForms.Toml.Moment
import MappingForms.Toml.Scan

/-!
Contract: dates and times in a TOML text.

Owns: the scanner for a date, a time of day, or a date with a time.

Every part has a fixed number of digits, except that a second may have any number of
decimal places, of which nine count. A distance from universal time is written only
after a date with a time.
-/

set_option autoImplicit false

namespace MappingForms.Toml.Scan

/-- The value of a number of digits, which must all be there. -/
private def figures : Nat → Nat → Scan Nat
  | 0, value => return value
  | count + 1, value => do
    let c ← next
    if c.isDigit then figures count (value * 10 + (c.toNat - '0'.toNat)) else failure

def required {α : Type} : Option α → Scan α
  | some value => return value
  | none => failure

def date : Scan Date := do
  let year ← figures 4 0
  expect "-"
  let month ← figures 2 0
  expect "-"
  let day ← figures 2 0
  required (Date.ofParts? year month day)

private def nanoseconds (places : List Char) : Nat :=
  ((places ++ List.replicate 9 '0').take 9).foldl
    (fun value c => value * 10 + (c.toNat - '0'.toNat)) 0

private def decimalPlaces : Scan (List Char) := do
  expect "."
  match ← takeWhile Char.isDigit with
  | [] => failure
  | places => return places

def time : Scan TimeOfDay := do
  let hour ← figures 2 0
  expect ":"
  let minute ← figures 2 0
  expect ":"
  let second ← figures 2 0
  let places ← attempt? decimalPlaces
  required (TimeOfDay.ofParts? hour minute second (nanoseconds (places.getD [])))

/-- The minutes ahead of universal time. -/
def offset : Scan Int := do
  match ← next with
  | 'Z' => return 0
  | 'z' => return 0
  | c =>
    if c != '+' && c != '-' then failure
    let hour ← figures 2 0
    expect ":"
    let minute ← figures 2 0
    if hour > 23 || minute > 59 then failure
    let minutes : Int := hour * 60 + minute
    return if c == '-' then -minutes else minutes

/-- What follows a date: a time after one blank or the letter T. -/
private def timeOfDate : Scan (TimeOfDay × Option Int) := do
  let c ← next
  if c != 'T' && c != 't' && c != ' ' then failure
  let time ← time
  return (time, ← attempt? offset)

def moment : Scan Moment := do
  match ← attempt? date with
  | none => return .time (← time)
  | some date =>
    match ← attempt? timeOfDate with
    | none => return .date date
    | some (time, offset) => return .dateTime date time offset

end MappingForms.Toml.Scan
