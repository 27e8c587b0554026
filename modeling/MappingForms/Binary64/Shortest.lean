import MappingForms.Binary64

/-!
Contract: the shortest decimal that reads back as a given double, and its text.

Owns: the test whether a decimal rounds to a number, the search for the fewest
digits that pass it, and the layout of those digits.

Among decimals of least length the one nearest to the number is taken, and of
two equally near ones the larger.
-/

set_option autoImplicit false

namespace MappingForms

/-- The decimal `digits * 10 ^ exponent`. -/
structure Decimal where
  digits : Nat
  exponent : Int
deriving DecidableEq

namespace Binary64

/-- Compares `digits * 10 ^ tens` with `units * 2 ^ twos`. -/
def compareScaled (digits : Nat) (tens : Int) (units : Nat) (twos : Int) : Ordering :=
  compare (digits * tenTo tens * twoTo (-twos)) (units * twoTo twos * tenTo (-tens))

/-- Whether the neighbour below is half as far away as the neighbour above. -/
def narrowBelow (number : Binary64) : Bool :=
  number.fractionField == 0 && number.exponentField > 1

/-- Whether a decimal lies among the reals that round to the number. The ends
of that interval belong to it exactly when the significand is even. -/
def readsBack (number : Binary64) (decimal : Decimal) : Bool :=
  let quarters := 4 * number.significand
  let low := if number.narrowBelow then quarters - 1 else quarters - 2
  let ends := number.significand % 2 == 0
  let fromLow := compareScaled decimal.digits decimal.exponent low (number.exponent - 2)
  let fromHigh :=
    compareScaled decimal.digits decimal.exponent (quarters + 2) (number.exponent - 2)
  (fromLow == .gt || (ends && fromLow == .eq)) && (fromHigh == .lt || (ends && fromHigh == .eq))

/-- The least `scale` for which the number is below `10 ^ scale`. The first
guess comes from the binary logarithm and is at most three too low. -/
private def decimalScale (number : Binary64) : Int :=
  let binade : Int := Nat.log2 number.significand + number.exponent
  let guess := Int.fdiv (binade * 30103) 100000 - 1
  let offset := (List.range 4).find? fun (step : Nat) =>
    compareScaled 1 (guess + step) number.significand number.exponent == .gt
  guess + offset.getD 4

/-- The candidate with the given number of digits, if one reads back. -/
def candidate (number : Binary64) (scale : Int) (length : Nat) : Option Decimal :=
  let grid := scale - length
  let scaled := number.significand * twoTo number.exponent * tenTo (-grid)
  let unit := twoTo (-number.exponent) * tenTo grid
  let below : Decimal := ⟨scaled / unit, grid⟩
  let above : Decimal := ⟨scaled / unit + 1, grid⟩
  match number.readsBack below, number.readsBack above with
  | true, true =>
    if 2 * (scaled % unit) < unit then some below else some above
  | true, false => some below
  | false, true => some above
  | false, false => none

/-- Moves trailing zeros of the digits into the exponent. -/
def dropZeros : Nat → Decimal → Decimal
  | 0, decimal => decimal
  | fuel + 1, decimal =>
    if decimal.digits % 10 = 0 then dropZeros fuel ⟨decimal.digits / 10, decimal.exponent + 1⟩
    else decimal

/-- The shortest decimal that reads back as a finite number other than zero.
Seventeen digits always suffice; the exact value stands in for a failed search. -/
def shortest (number : Binary64) : Decimal :=
  let scale := number.decimalScale
  match (List.range 17).findSome? fun index => number.candidate scale (index + 1) with
  | some decimal => dropZeros 17 decimal
  | none =>
    ⟨number.significand * twoTo number.exponent * tenTo (-number.exponent) /
        twoTo (-number.exponent),
      min number.exponent 0⟩

/-- Positional notation is used for zero and from `10 ^ -4` up to `10 ^ 16`. -/
def leastPositional : Int := -4

@[inherit_doc leastPositional]
def positionalLimit : Int := 16

/-- Digits with a decimal point and at least one digit on either side of it. -/
def positional (digits : String) (point : Int) : String :=
  if point ≤ 0 then
    "0." ++ "".pushn '0' (-point).toNat ++ digits
  else if (digits.length : Int) ≤ point then
    digits ++ "".pushn '0' (point.toNat - digits.length) ++ ".0"
  else
    String.ofList (digits.toList.take point.toNat) ++ "." ++
      String.ofList (digits.toList.drop point.toNat)

/-- One digit, the remaining digits after a point if there are any, and the exponent. -/
def scientific (digits : String) (exponent : Int) : String :=
  let mantissa := match digits.toList with
    | first :: second :: rest => String.ofList (first :: '.' :: second :: rest)
    | _ => digits
  mantissa ++ "e" ++ toString exponent

def magnitudeText (number : Binary64) : String :=
  if number.isZero then "0.0"
  else
    let decimal := number.shortest
    let digits := toString decimal.digits
    let point : Int := digits.length + decimal.exponent
    if leastPositional < point ∧ point ≤ positionalLimit then positional digits point
    else scientific digits (point - 1)

/-- The text of a finite number: the fewest digits that read back, with a
fraction or an exponent. -/
def text (number : Binary64) : String :=
  if number.isNegative then "-" ++ number.magnitudeText else number.magnitudeText

end Binary64

end MappingForms
