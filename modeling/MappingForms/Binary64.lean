/-!
Contract: double precision numbers as bit patterns, with exact arithmetic.

Owns: the decomposition of a finite number into significand and power of two,
the number nearest to a ratio of naturals with ties to the even significand, that
nearest to a decimal,
the rounded product and quotient, and the equality that identifies the two
zeros.

No floating-point operation of the machine is used, so everything here can be
evaluated and reasoned about as arithmetic on naturals.
-/

set_option autoImplicit false

namespace MappingForms

/-- A double precision number, given by its 64 bits. -/
structure Binary64 where
  bits : UInt64
deriving DecidableEq, Inhabited

namespace Binary64

/-- The power of a base, or one in place of a negative power. -/
def twoTo (power : Int) : Nat := Nat.pow 2 power.toNat

@[inherit_doc twoTo]
def tenTo (power : Int) : Nat := Nat.pow 10 power.toNat

/-- The weight of the lowest bit of the exponent field. -/
def fractionModulus : Nat := twoTo 52

def signWeight : Nat := twoTo 63

def infinityBits : Nat := 2047 * fractionModulus

def isNegative (number : Binary64) : Bool := number.bits.toNat ≥ signWeight

/-- The bits below the sign bit. -/
def magnitudeBits (number : Binary64) : Nat := number.bits.toNat % signWeight

def isZero (number : Binary64) : Bool := number.magnitudeBits == 0

def isInfinite (number : Binary64) : Bool := number.magnitudeBits == infinityBits

def isNaN (number : Binary64) : Bool := number.magnitudeBits > infinityBits

def exponentField (number : Binary64) : Nat := number.magnitudeBits / fractionModulus

def fractionField (number : Binary64) : Nat := number.magnitudeBits % fractionModulus

/-- The absolute value of a finite number is `significand * 2 ^ exponent`. -/
def significand (number : Binary64) : Nat :=
  if number.exponentField = 0 then number.fractionField
  else fractionModulus + number.fractionField

@[inherit_doc significand]
def exponent (number : Binary64) : Int :=
  if number.exponentField = 0 then -1074 else (number.exponentField : Int) - 1075

/-- Numerical equality: no number equals a NaN, and the two zeros are equal. -/
def sameNumber (left right : Binary64) : Bool :=
  !left.isNaN && !right.isNaN && (left == right || (left.isZero && right.isZero))

def zero : Binary64 := ⟨0⟩

def infinity : Binary64 := ⟨infinityBits.toUInt64⟩

/-- The positive NaN without payload. -/
def nan : Binary64 := ⟨(infinityBits + twoTo 51).toUInt64⟩

def neg (number : Binary64) : Binary64 :=
  ⟨(number.bits.toNat + signWeight).toUInt64⟩

/-- Compares `numerator / denominator` with `2 ^ power`. -/
private def belowPower (numerator denominator : Nat) (power : Int) : Bool :=
  numerator * twoTo (-power) < denominator * twoTo power

/-- The quotient of two naturals, to the nearest natural and on a tie to the even one. -/
def roundedQuotient (numerator denominator : Nat) : Nat :=
  let quotient := numerator / denominator
  let remainder := numerator % denominator
  if 2 * remainder > denominator ∨ (2 * remainder = denominator ∧ quotient % 2 = 1) then
    quotient + 1
  else
    quotient

/-- The number nearest to a ratio, with ties to the even significand. A ratio
beyond the largest finite number gives infinity. -/
def ofRatio (numerator denominator : Nat) : Binary64 :=
  if numerator = 0 then zero
  else
    let estimate : Int := (Nat.log2 numerator : Int) - (Nat.log2 denominator : Int)
    let binade := if belowPower numerator denominator estimate then estimate - 1 else estimate
    let power := max (binade - 52) (-1074)
    let rounded :=
      roundedQuotient (numerator * twoTo (-power)) (denominator * twoTo power)
    -- A significand that rounds up to the next power of two carries into the exponent field.
    ⟨(min ((power + 1074).toNat * fractionModulus + rounded) infinityBits).toUInt64⟩

def ofNat (value : Nat) : Binary64 := ofRatio value 1

/-- The decimal digits of a natural, leading zeros apart. -/
private def digitCount (value : Nat) : Nat := (Nat.toDigits 10 value).length

/-- The number nearest to `digits * 10 ^ power`. Decimals whose first digit stands far
beyond those of the finite numbers on either side give infinity or zero at once. -/
def ofDecimal (digits : Nat) (power : Int) : Binary64 :=
  let point := digitCount digits + power
  if digits = 0 ∨ point < -330 then zero
  else if 310 < point then infinity
  else ofRatio (digits * tenTo power) (tenTo (-power))

/-- The rounded product of two finite numbers, signs aside. -/
def mulMagnitude (left right : Binary64) : Binary64 :=
  let power := left.exponent + right.exponent
  ofRatio (left.significand * right.significand * twoTo power) (twoTo (-power))

/-- The rounded quotient of two finite numbers, signs aside. -/
def divMagnitude (left right : Binary64) : Binary64 :=
  let power := left.exponent - right.exponent
  ofRatio (left.significand * twoTo power) (right.significand * twoTo (-power))

end Binary64

end MappingForms
