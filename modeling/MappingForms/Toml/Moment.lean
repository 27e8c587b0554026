/-!
Contract: dates and times of day as values.

Owns: the date of the calendar, the time of day, and the moment that is made of one or
both of them, perhaps with the distance from universal time.
-/

set_option autoImplicit false

namespace MappingForms.Toml

structure Date where
  year : Nat
  month : Nat
  day : Nat
deriving DecidableEq

namespace Date

private def isLeapYear (year : Nat) : Bool := year % 4 == 0 && (year % 100 != 0 || year % 400 == 0)

/-- The days of a month, which is counted from one. -/
private def daysIn (year month : Nat) : Nat :=
  if month = 2 then if isLeapYear year then 29 else 28
  else if month = 4 ∨ month = 6 ∨ month = 9 ∨ month = 11 then 30
  else 31

def ofParts? (year month day : Nat) : Option Date :=
  if 1 ≤ month ∧ month ≤ 12 ∧ 1 ≤ day ∧ day ≤ daysIn year month then some ⟨year, month, day⟩
  else none

end Date

/-- A time of day. A minute may end with a leap second. -/
structure TimeOfDay where
  hour : Nat
  minute : Nat
  second : Nat
  nanosecond : Nat
deriving DecidableEq

namespace TimeOfDay

def ofParts? (hour minute second nanosecond : Nat) : Option TimeOfDay :=
  if hour ≤ 23 ∧ minute ≤ 59 ∧ second ≤ 60 then some ⟨hour, minute, second, nanosecond⟩
  else none

end TimeOfDay

inductive Moment where
  | date (date : Date)
  | time (time : TimeOfDay)
  /-- Both of them, perhaps so many minutes ahead of universal time. -/
  | dateTime (date : Date) (time : TimeOfDay) (offset : Option Int)
deriving DecidableEq

end MappingForms.Toml
