import MappingForms.Toml
import MappingForms.Toml.Scan

/-!
Contract: numbers in a TOML text.

Owns: the scanners for integers of four bases, and for numbers with a fraction or an
exponent.

Underscores may stand between digits. Integers have 64 bits. A number with a fraction or
an exponent is read as the nearest double; one that is too large for that is refused,
unless it is negative, in which case it is read as negative infinity.
-/

set_option autoImplicit false

namespace MappingForms.Toml.Scan

/-- Whether underscores stand only between digits. -/
private def groupsDigits (text : List Char) : Bool :=
  text.head? != some '_' && text.getLast? != some '_' &&
    (text.zip (text.drop 1)).all fun (left, right) => !(left == '_' && right == '_')

private def digitValue (c : Char) : Nat :=
  if c.isDigit then c.toNat - '0'.toNat else c.toLower.toNat - 'a'.toNat + 10

private def valueIn (base : Nat) (digits : List Char) : Nat :=
  digits.foldl (fun value c => value * base + digitValue c) 0

/-- Digits below the base, without the underscores between them. -/
def digits (base : Nat) : Scan (List Char) := do
  let text ← takeWhile fun c =>
    c == '_' || ((c.isDigit || ('a' ≤ c.toLower && c.toLower ≤ 'f')) && digitValue c < base)
  if text.isEmpty || !groupsDigits text then failure
  return text.filter (· != '_')

def inRange (value : Int) : Scan Toml :=
  if Int64.minValue.toInt ≤ value ∧ value ≤ Int64.maxValue.toInt then return .integer value
  else failure

/-- An integer in another base, after the mark of the base. -/
private def based (base : Nat) : Scan Toml := do
  skip 2
  inRange (valueIn base (← digits base))

/-- Takes a sign. The result tells whether it was a minus. -/
def sign : Scan Bool := do
  match ← peek with
  | some '-' =>
    skip 1
    return true
  | some '+' =>
    skip 1
    return false
  | _ => return false

def signed (negative : Bool) (number : Binary64) : Toml :=
  .float (if negative then number.neg else number)

/-- The digits before a point. Only zero itself starts with a zero. -/
def whole : Scan (List Char) := do
  let text ← digits 10
  if text.head? == some '0' && text.length > 1 then failure
  return text

private def fraction? : Scan (Option (List Char)) := do
  if ← startsWith "." then
    skip 1
    return some (← digits 10)
  else
    return none

private def exponent? : Scan (Option Int) := do
  if (← startsWith "e") || (← startsWith "E") then
    skip 1
    let negative ← sign
    let power : Int := valueIn 10 (← digits 10)
    return some (if negative then -power else power)
  else
    return none

/-- A decimal number after its sign. -/
def decimal (negative : Bool) : Scan Toml := do
  let before ← whole
  match ← fraction?, ← exponent? with
  | none, none =>
    let magnitude : Int := valueIn 10 before
    inRange (if negative then -magnitude else magnitude)
  | fraction, exponent =>
    let after := fraction.getD []
    let number := Binary64.ofDecimal (valueIn 10 (before ++ after))
      (exponent.getD 0 - after.length)
    if number.isInfinite && !negative then failure
    return signed negative number

def number : Scan Toml := do
  if ← startsWith "0x" then based 16
  else if ← startsWith "0o" then based 8
  else if ← startsWith "0b" then based 2
  else
    let negative ← sign
    if ← startsWith "inf" then
      skip 3
      return signed negative .infinity
    else if ← startsWith "nan" then
      skip 3
      return signed negative .nan
    else
      decimal negative

end MappingForms.Toml.Scan
