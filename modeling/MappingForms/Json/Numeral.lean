import MappingForms.Binary64.Shortest

/-!
Contract: numbers as they are written in JSON, and the values that they stand for.

Owns: the written form of a number, the integer that it denotes, the double that it
is read as, and the numeral that a double is written as.

Reading a double works on a significand of at most 64 bits and a power of ten, with
one rounding for each step. It is therefore not always the nearest double.
-/

set_option autoImplicit false

namespace MappingForms

namespace Json

inductive Numeral where
  /-- Digits alone. -/
  | integer (negative : Bool) (magnitude : Nat)
  /-- `whole.fraction * 10 ^ exponent`, with a fraction or an exponent or both. -/
  | decimal (negative : Bool) (whole : Nat) (fraction : List Nat) (exponent : Int)
deriving DecidableEq

namespace Numeral

def ofInt (value : Int) : Numeral := integer (value < 0) value.natAbs

def ofNat (value : Nat) : Numeral := integer false value

/-- The integer that is written. A negative zero is a double and not an integer. -/
def toInt? : Numeral → Option Int
  | integer true 0 => none
  | integer true magnitude => some (-(magnitude : Int))
  | integer false magnitude => some magnitude
  | decimal .. => none

/-- Significands stay below this limit while digits are read. -/
def significandLimit : Nat := UInt64.size

/-- Cuts digits from the end of a natural until it is below the limit. The second
result counts them. -/
def cutDigits (value : Nat) : Nat × Nat :=
  if value < significandLimit then (value, 0)
  else
    let (significand, count) := cutDigits (value / 10)
    (significand, count + 1)
termination_by value
decreasing_by
  rename_i atLeast
  simp only [significandLimit, UInt64.size] at atLeast
  omega

/-- Appends digits to a significand as long as it stays below the limit. The second
result counts them. -/
def takeDigits (significand : Nat) : List Nat → Nat × Nat
  | [] => (significand, 0)
  | digit :: rest =>
    let longer := significand * 10 + digit
    if longer < significandLimit then
      let (result, count) := takeDigits longer rest
      (result, count + 1)
    else
      (significand, 0)

/-- The largest power of ten with a finite double. -/
def greatestPower : Nat := 308

def powerOfTen (power : Nat) : Binary64 := .ofNat (Binary64.tenTo power)

/-- Multiplies a double by a power of ten, or divides it by one or two of them.
A product beyond the finite doubles is refused. -/
def scaled (number : Binary64) (power : Int) : Option Binary64 :=
  if number.isZero then some number
  else if 0 ≤ power then
    if power ≤ greatestPower then
      let product := number.mulMagnitude (powerOfTen power.toNat)
      if product.isInfinite then none else some product
    else
      none
  else if -(greatestPower : Int) ≤ power then
    some (number.divMagnitude (powerOfTen (-power).toNat))
  else if -(2 * greatestPower : Int) ≤ power then
    some ((number.divMagnitude (powerOfTen greatestPower)).divMagnitude
      (powerOfTen (-power - greatestPower).toNat))
  else
    some .zero

def signed (negative : Bool) (magnitude : Binary64) : Binary64 :=
  if negative then magnitude.neg else magnitude

/-- The absolute value that digits around a point are read as. -/
def magnitude? (whole : Nat) (fraction : List Nat) (exponent : Int) : Option Binary64 :=
  let (significand, cut) := cutDigits whole
  let (significand, taken) := takeDigits significand fraction
  scaled (.ofNat significand) (exponent + cut - taken)

/-- The double that a number is read as, if it is in range. -/
def toBinary64? : Numeral → Option Binary64
  | integer negative magnitude => (magnitude? magnitude [] 0).map (signed negative)
  | decimal negative whole fraction exponent =>
    (magnitude? whole fraction exponent).map (signed negative)

def digitsOf (text : List Char) : List Nat := text.map fun c => c.toNat - '0'.toNat

def valueOf (digits : List Nat) : Nat := digits.foldl (fun value digit => value * 10 + digit) 0

/-- A finite double with its shortest digits, always as a decimal. -/
def ofBinary64 (number : Binary64) : Numeral :=
  if number.isZero then decimal number.isNegative 0 [0] 0
  else
    let shortest := number.shortest
    let digits := digitsOf (Nat.toDigits 10 shortest.digits)
    let point : Int := digits.length + shortest.exponent
    if Binary64.leastPositional < point ∧ point ≤ Binary64.positionalLimit then
      let padded := List.replicate (-point).toNat 0 ++ digits ++
        List.replicate (point - digits.length).toNat 0
      let fraction := padded.drop point.toNat
      decimal number.isNegative (valueOf (padded.take point.toNat))
        (if fraction.isEmpty then [0] else fraction) 0
    else
      decimal number.isNegative (valueOf (digits.take 1)) (digits.drop 1) (point - 1)

/-- The number as it is written. A decimal without fraction has an exponent. -/
def text : Numeral → String
  | integer negative magnitude => (if negative then "-" else "") ++ toString magnitude
  | decimal negative whole fraction exponent =>
    (if negative then "-" else "") ++ toString whole ++
      (if fraction.isEmpty then "" else "." ++ String.join (fraction.map toString)) ++
      (if fraction.isEmpty || exponent != 0 then "e" ++ toString exponent else "")

end Numeral

end Json

end MappingForms
