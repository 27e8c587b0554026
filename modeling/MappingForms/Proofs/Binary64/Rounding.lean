import Mathlib.Algebra.Order.Field.Power
import Mathlib.Tactic.FieldSimp
import Mathlib.Tactic.Linarith
import Mathlib.Tactic.Positivity
import Mathlib.Tactic.Ring
import MappingForms.Binary64.Shortest

/-!
Contract: the reals that round to a double, and the shortest decimal among them.

Owns: the ends of the interval around each number, the order of these intervals, and that the
shortest decimal of a number lies in its interval and in no other.

The upper end of one interval is the lower end of the next, and the significands of neighbours
differ in parity, so no real rounds to two numbers.
-/

set_option autoImplicit false

namespace MappingForms

def Decimal.value (decimal : Decimal) : ℚ := decimal.digits * 10 ^ decimal.exponent

namespace Binary64

/-- The sign and the bits below it make up a number. -/
theorem eq_of_magnitude {left right : Binary64} (signEq : left.isNegative = right.isNegative)
    (magnitudeEq : left.magnitudeBits = right.magnitudeBits) : left = right := by
  have weight : signWeight = 2 ^ 63 := rfl
  have leftBound := left.bits.toNat_lt
  have rightBound := right.bits.toNat_lt
  simp only [isNegative, magnitudeBits, weight, decide_eq_decide] at *
  have bitsEq : left.bits.toNat = right.bits.toNat := by omega
  exact congrArg Binary64.mk (UInt64.toNat_inj.1 bitsEq)

/-! ### Exact comparison -/

/-- A power is a quotient of natural powers, of which one is one. -/
theorem pow_toNat_div (base : ℚ) (power : Int) :
    base ^ power.toNat / base ^ (-power).toNat = base ^ power := by
  rcases Int.le_total 0 power with nonneg | nonpos
  · obtain ⟨exponent, rfl⟩ := Int.eq_ofNat_of_zero_le nonneg
    simp
  · obtain ⟨exponent, powerEq⟩ := Int.eq_ofNat_of_zero_le (Int.neg_nonneg_of_nonpos nonpos)
    obtain rfl : power = -exponent := by omega
    simp

private theorem twoTo_div (power : Int) : (twoTo power : ℚ) / twoTo (-power) = 2 ^ power := by
  simpa [twoTo] using pow_toNat_div 2 power

private theorem tenTo_div (power : Int) : (tenTo power : ℚ) / tenTo (-power) = 10 ^ power := by
  simpa [tenTo] using pow_toNat_div 10 power

private theorem twoTo_pos (power : Int) : 0 < twoTo power := Nat.pow_pos (by decide)

private theorem tenTo_pos (power : Int) : 0 < tenTo power := Nat.pow_pos (by decide)

/-- Scaling with naturals compares the exact values. -/
theorem compareScaled_eq (digits : Nat) (tens : Int) (units : Nat) (twos : Int) :
    compareScaled digits tens units twos =
      compare ((digits : ℚ) * 10 ^ tens) (units * 2 ^ twos) := by
  have twosPos : (0 : ℚ) < twoTo (-twos) := by exact_mod_cast twoTo_pos _
  have tensPos : (0 : ℚ) < tenTo (-tens) := by exact_mod_cast tenTo_pos _
  have leftEq : (digits : ℚ) * 10 ^ tens =
      (digits * tenTo tens * twoTo (-twos) : Nat) / (tenTo (-tens) * twoTo (-twos)) := by
    rw [← tenTo_div]
    push_cast
    field_simp
  have rightEq : (units : ℚ) * 2 ^ twos =
      (units * twoTo twos * tenTo (-tens) : Nat) / (tenTo (-tens) * twoTo (-twos)) := by
    rw [← twoTo_div]
    push_cast
    field_simp
  rw [leftEq, rightEq, compareScaled]
  have scalePos : (0 : ℚ) < tenTo (-tens) * twoTo (-twos) := mul_pos tensPos twosPos
  simp only [compare, compareOfLessAndEq, div_lt_div_iff_of_pos_right scalePos,
    div_left_inj' scalePos.ne', Nat.cast_lt, Nat.cast_inj]

/-! ### Intervals

The bits below the sign number the finite magnitudes in their order. -/

/-- The significand of a magnitude given by its bits. -/
def significandAt (magnitude : Nat) : Nat :=
  if magnitude / fractionModulus = 0 then magnitude % fractionModulus
  else fractionModulus + magnitude % fractionModulus

def exponentAt (magnitude : Nat) : Int :=
  if magnitude / fractionModulus = 0 then -1074 else (magnitude / fractionModulus : Nat) - 1075

/-- The lower end of the interval, in quarters of the last place. -/
def lowerQuarters (magnitude : Nat) : Nat :=
  if magnitude % fractionModulus == 0 && magnitude / fractionModulus > 1 then
    4 * significandAt magnitude - 1
  else
    4 * significandAt magnitude - 2

def lowerEnd (magnitude : Nat) : ℚ := lowerQuarters magnitude * 2 ^ (exponentAt magnitude - 2)

def upperEnd (magnitude : Nat) : ℚ :=
  (4 * significandAt magnitude + 2 : Nat) * 2 ^ (exponentAt magnitude - 2)

/-- Whether a value rounds to a magnitude. The ends round to even significands. -/
def RoundsTo (value : ℚ) (magnitude : Nat) : Prop :=
  (lowerEnd magnitude < value ∨
    significandAt magnitude % 2 = 0 ∧ value = lowerEnd magnitude) ∧
  (value < upperEnd magnitude ∨
    significandAt magnitude % 2 = 0 ∧ value = upperEnd magnitude)

private theorem lowerEnd_lt_upperEnd (magnitude : Nat) :
    lowerEnd magnitude < upperEnd magnitude := by
  have quarters : lowerQuarters magnitude < 4 * significandAt magnitude + 2 := by
    unfold lowerQuarters
    split <;> omega
  exact mul_lt_mul_of_pos_right (by exact_mod_cast quarters) (by positivity)

private theorem significandAt_mod_two (magnitude : Nat) :
    significandAt magnitude % 2 = magnitude % 2 := by
  have modulus : fractionModulus = 2 ^ 52 := rfl
  rw [significandAt, modulus]
  split <;> omega

/-- The next magnitude has the same last place, or, where the significand overflows, one twice
as large. -/
theorem next_quarters (magnitude : Nat) :
    (exponentAt (magnitude + 1) = exponentAt magnitude ∧
      lowerQuarters (magnitude + 1) = 4 * significandAt magnitude + 2) ∨
    (exponentAt (magnitude + 1) = exponentAt magnitude + 1 ∧
      2 * lowerQuarters (magnitude + 1) = 4 * significandAt magnitude + 2) := by
  have modulus : fractionModulus = 2 ^ 52 := rfl
  simp only [exponentAt, lowerQuarters, significandAt, modulus, Bool.and_eq_true, beq_iff_eq,
    decide_eq_true_eq]
  split_ifs <;> omega

/-- Neighbouring intervals share an end. -/
theorem lowerEnd_succ (magnitude : Nat) : lowerEnd (magnitude + 1) = upperEnd magnitude := by
  unfold lowerEnd upperEnd
  rcases next_quarters magnitude with ⟨sameExponent, quarters⟩ | ⟨nextExponent, quarters⟩
  · rw [sameExponent, quarters]
  · rw [nextExponent, ← quarters, add_sub_right_comm, zpow_add_one₀ two_ne_zero]
    push_cast
    ring

private theorem upperEnd_strictMono : StrictMono upperEnd :=
  strictMono_nat_of_lt_succ fun magnitude =>
    lowerEnd_succ magnitude ▸ lowerEnd_lt_upperEnd (magnitude + 1)

private theorem RoundsTo.lowerEnd_le {value : ℚ} {magnitude : Nat}
    (rounds : RoundsTo value magnitude) :
    lowerEnd magnitude ≤ value :=
  rounds.1.elim le_of_lt fun atEnd => atEnd.2.ge

private theorem RoundsTo.le_upperEnd {value : ℚ} {magnitude : Nat}
    (rounds : RoundsTo value magnitude) :
    value ≤ upperEnd magnitude :=
  rounds.2.elim le_of_lt fun atEnd => atEnd.2.le

/-- No value rounds to two magnitudes. -/
theorem RoundsTo.not_lt {value : ℚ} {lower upper : Nat} (toLower : RoundsTo value lower)
    (toUpper : RoundsTo value upper) : ¬lower < upper := by
  intro less
  obtain ⟨below, rfl⟩ := Nat.exists_eq_succ_of_ne_zero (Nat.ne_zero_of_lt less)
  have between : upperEnd below ≤ upperEnd lower := by
    calc upperEnd below = lowerEnd (below + 1) := (lowerEnd_succ below).symm
      _ ≤ value := toUpper.lowerEnd_le
      _ ≤ upperEnd lower := toLower.le_upperEnd
  obtain rfl : below = lower :=
    le_antisymm (upperEnd_strictMono.le_iff_le.1 between) (Nat.lt_succ_iff.1 less)
  -- The value is the common end of two neighbours, and only an even significand owns it.
  have atEnd : value = upperEnd below :=
    le_antisymm toLower.le_upperEnd (lowerEnd_succ below ▸ toUpper.lowerEnd_le)
  have lowerEven : significandAt below % 2 = 0 := by
    rcases toLower.2 with inside | atEnd
    · exact absurd atEnd inside.ne
    · exact atEnd.1
  have upperEven : significandAt (below + 1) % 2 = 0 := by
    rcases toUpper.1 with inside | atEnd
    · exact absurd (atEnd.trans (lowerEnd_succ below).symm) inside.ne'
    · exact atEnd.1
  rw [significandAt_mod_two] at lowerEven upperEven
  omega

/-- No value rounds to two magnitudes. -/
theorem RoundsTo.unique {value : ℚ} {left right : Nat} (toLeft : RoundsTo value left)
    (toRight : RoundsTo value right) : left = right :=
  le_antisymm (Nat.le_of_not_lt (toRight.not_lt toLeft)) (Nat.le_of_not_lt (toLeft.not_lt toRight))

/-! ### The shortest decimal -/

private theorem readsBack_eq_true_iff (number : Binary64) (decimal : Decimal) :
    number.readsBack decimal = true ↔ RoundsTo decimal.value number.magnitudeBits := by
  have lowEq : (if number.narrowBelow then 4 * number.significand - 1
      else 4 * number.significand - 2) = lowerQuarters number.magnitudeBits := rfl
  simp only [readsBack, compareScaled_eq, lowEq]
  simp only [Bool.and_eq_true, Bool.or_eq_true, beq_iff_eq, compare_gt_iff_gt, compare_lt_iff_lt,
    compare_eq_iff_eq]
  rfl

theorem roundsTo_zero : RoundsTo 0 0 := by
  refine ⟨.inr ⟨rfl, ?_⟩, .inl ?_⟩
  · simp [lowerEnd, lowerQuarters, significandAt]
  · unfold upperEnd
    positivity

/-- The exact value rounds to its own magnitude. -/
theorem roundsTo_exact (magnitude : Nat) (nonzero : magnitude ≠ 0) :
    RoundsTo (significandAt magnitude * 2 ^ exponentAt magnitude) magnitude := by
  have quarters : (significandAt magnitude : ℚ) * 2 ^ exponentAt magnitude =
      (4 * significandAt magnitude : Nat) * 2 ^ (exponentAt magnitude - 2) := by
    rw [zpow_sub₀ two_ne_zero]
    push_cast
    ring
  have positive : 0 < significandAt magnitude := by
    have modulus : fractionModulus = 2 ^ 52 := rfl
    rw [significandAt, modulus]
    split <;> omega
  have lowerLess : lowerQuarters magnitude < 4 * significandAt magnitude := by
    unfold lowerQuarters
    split <;> omega
  have scalePos : (0 : ℚ) < 2 ^ (exponentAt magnitude - 2) := by positivity
  rw [quarters]
  refine ⟨.inl (mul_lt_mul_of_pos_right ?_ scalePos), .inl (mul_lt_mul_of_pos_right ?_ scalePos)⟩
  · exact_mod_cast lowerLess
  · exact_mod_cast Nat.lt_add_of_pos_right two_pos

private theorem readsBack_of_candidate {number : Binary64} {scale : Int} {length : Nat}
    {decimal : Decimal}
    (found : number.candidate scale length = some decimal) : number.readsBack decimal = true := by
  simp only [candidate] at found
  split at found
  next => split at found <;> simp_all
  next => simp_all
  next => simp_all
  next => simp at found

private theorem value_dropZeros (fuel : Nat) (decimal : Decimal) :
    (dropZeros fuel decimal).value = decimal.value := by
  fun_induction dropZeros fuel decimal with
  | case1 => rfl
  | case2 fuel decimal divisible inductionHypothesis =>
    rw [inductionHypothesis]
    obtain ⟨digits, digitsEq⟩ := Nat.dvd_of_mod_eq_zero divisible
    simp only [Decimal.value, digitsEq, Nat.mul_div_cancel_left digits (by decide : 0 < 10),
      zpow_add_one₀ (by decide : (10 : ℚ) ≠ 0)]
    push_cast
    ring
  | case3 => rfl

/-- A binary number is a decimal with as many places after the point as bits. -/
theorem value_exact (units : Nat) (twos : Int) :
    (⟨units * twoTo twos * tenTo (-twos) / twoTo (-twos), min twos 0⟩ : Decimal).value =
      units * 2 ^ twos := by
  rcases Int.le_total 0 twos with nonneg | nonpos
  · obtain ⟨exponent, rfl⟩ := Int.eq_ofNat_of_zero_le nonneg
    simp [Decimal.value, twoTo, tenTo]
  · obtain ⟨exponent, twosEq⟩ := Int.eq_ofNat_of_zero_le (Int.neg_nonneg_of_nonpos nonpos)
    obtain rfl : twos = -exponent := by omega
    have divided : units * 10 ^ exponent / 2 ^ exponent = units * 5 ^ exponent := by
      rw [show 10 = 5 * 2 from rfl, Nat.mul_pow, ← Nat.mul_assoc,
        Nat.mul_div_cancel _ (Nat.pow_pos (by decide))]
    have scales : (5 : ℚ) ^ exponent * (10 ^ exponent)⁻¹ = (2 ^ exponent)⁻¹ := by
      rw [show (10 : ℚ) = 5 * 2 by norm_num, mul_pow, mul_inv, ← mul_assoc,
        mul_inv_cancel₀ (by positivity), one_mul]
    simp [Decimal.value, twoTo, tenTo, divided, mul_assoc, scales]

/-- The shortest decimal of a number other than zero rounds to that number. -/
theorem roundsTo_shortest {number : Binary64} (nonzero : number.isZero = false) :
    RoundsTo number.shortest.value number.magnitudeBits := by
  unfold shortest
  extract_lets scale
  split
  next decimal found =>
    obtain ⟨index, -, found⟩ := List.exists_of_findSome?_eq_some found
    rw [value_dropZeros]
    exact (readsBack_eq_true_iff number decimal).1 (readsBack_of_candidate found)
  next =>
    rw [value_exact]
    exact roundsTo_exact number.magnitudeBits (beq_eq_false_iff_ne.1 nonzero)

end Binary64

end MappingForms
