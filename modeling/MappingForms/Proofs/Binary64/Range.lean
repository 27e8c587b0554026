import Mathlib.Algebra.Group.Nat.Defs
import MappingForms.Binary64

/-!
Contract: bounds on rounded ratios and products.

Owns: a bound on the bits of the number nearest to a ratio, bounds on significands and exponents,
and a range within which products are finite.

The bounds only count powers of two. They are coarse, but far from the end of the finite numbers.
-/

set_option autoImplicit false

namespace MappingForms.Binary64

/-- The quotient that becomes the significand has at most 54 bits. -/
theorem quotient_lt (numerator : Nat) {denominator : Nat} {power : Int} (positive : 0 < denominator)
    (close : (Nat.log2 numerator : Int) - Nat.log2 denominator - power ≤ 53) :
    numerator * twoTo (-power) / (denominator * twoTo power) < 2 ^ 54 := by
  have numeratorBelow : numerator < 2 ^ (Nat.log2 numerator + 1) := Nat.lt_log2_self
  have denominatorAbove : 2 ^ Nat.log2 denominator ≤ denominator :=
    Nat.log2_self_le (Nat.pos_iff_ne_zero.1 positive)
  have scalePositive : 0 < twoTo power := Nat.pow_pos (by decide)
  rw [Nat.div_lt_iff_lt_mul (Nat.mul_pos positive scalePositive)]
  calc numerator * twoTo (-power)
      < 2 ^ (Nat.log2 numerator + 1) * twoTo (-power) :=
        Nat.mul_lt_mul_of_pos_right numeratorBelow (Nat.pow_pos (by decide))
    _ = 2 ^ (Nat.log2 numerator + 1 + (-power).toNat) := (Nat.pow_add ..).symm
    _ ≤ 2 ^ (54 + Nat.log2 denominator + power.toNat) := Nat.pow_le_pow_right (by decide) (by omega)
    _ = 2 ^ 54 * (2 ^ Nat.log2 denominator * twoTo power) := by
      rw [Nat.pow_add, Nat.pow_add, Nat.mul_assoc]
      rfl
    _ ≤ 2 ^ 54 * (denominator * twoTo power) :=
        Nat.mul_le_mul_left _ (Nat.mul_le_mul_right _ denominatorAbove)

private theorem roundedQuotient_le (numerator denominator : Nat) :
    roundedQuotient numerator denominator ≤ numerator / denominator + 1 := by
  unfold roundedQuotient
  dsimp only
  split <;> omega

private theorem magnitudeBits_toUInt64_le {bits bound : Nat} (below : bits ≤ bound) :
    (Binary64.mk bits.toUInt64).magnitudeBits ≤ bound := by
  have reduced : bits.toUInt64.toNat ≤ bits := by
    rw [Nat.toUInt64_eq, UInt64.toNat_ofNat']
    exact Nat.mod_le ..
  exact Nat.le_trans (Nat.mod_le ..) (Nat.le_trans reduced below)

/-- A ratio below a power of two gives bits that are bounded by the exponent of that power. -/
theorem magnitudeBits_ofRatio_le {numerator denominator excess : Nat} (positive : 0 < denominator)
    (bounded : Nat.log2 numerator ≤ Nat.log2 denominator + excess) :
    (ofRatio numerator denominator).magnitudeBits ≤ (excess + 1026) * fractionModulus := by
  unfold ofRatio
  split
  · exact Nat.zero_le _
  · extract_lets estimate binade power rounded
    have binadeBelow : binade ≤ excess := by
      simp only [binade, estimate]
      split <;> omega
    have binadeAbove : estimate - 1 ≤ binade := by
      simp only [binade]
      split <;> omega
    have roundedBelow : rounded ≤ 4 * fractionModulus := by
      have quotientBelow : numerator * twoTo (-power) / (denominator * twoTo power) < 2 ^ 54 :=
        quotient_lt numerator positive (by omega)
      have near := roundedQuotient_le (numerator * twoTo (-power)) (denominator * twoTo power)
      have modulus : fractionModulus = 2 ^ 52 := rfl
      omega
    have fieldBelow : (power + 1074).toNat ≤ excess + 1022 := by omega
    apply magnitudeBits_toUInt64_le
    calc min ((power + 1074).toNat * fractionModulus + rounded) infinityBits
        ≤ (power + 1074).toNat * fractionModulus + rounded := Nat.min_le_left ..
      _ ≤ (excess + 1022) * fractionModulus + 4 * fractionModulus :=
          Nat.add_le_add (Nat.mul_le_mul_right _ fieldBelow) roundedBelow
      _ = (excess + 1026) * fractionModulus := (Nat.add_mul ..).symm

private theorem significand_lt (number : Binary64) : number.significand < 2 ^ 53 := by
  have modulus : fractionModulus = 2 ^ 52 := rfl
  have fractionBelow : number.fractionField < fractionModulus := Nat.mod_lt _ (by decide)
  unfold significand
  split <;> omega

private theorem exponent_le {number : Binary64} {excess : Nat}
    (bounded : number.magnitudeBits ≤ (excess + 1026) * fractionModulus) :
    number.exponent ≤ (excess : Int) - 49 := by
  have fieldBelow : number.exponentField ≤ excess + 1026 := by
    apply Nat.div_le_of_le_mul
    rwa [Nat.mul_comm]
  unfold exponent
  split <;> omega

/-- The exponent of a natural is bounded by its number of bits. -/
theorem exponent_ofNat_le {value excess : Nat} (bounded : value < 2 ^ (excess + 1)) :
    (ofNat value).exponent ≤ (excess : Int) - 49 := by
  apply exponent_le
  apply magnitudeBits_ofRatio_le (by decide)
  by_cases zero : value = 0
  · rw [zero]
    exact Nat.zero_le _
  · have logBelow := (Nat.log2_lt zero).2 bounded
    omega

/-- The product of numbers with small exponents is finite. -/
theorem mulMagnitude_finite {left right : Binary64}
    (small : left.exponent + right.exponent ≤ 0) :
    (left.mulMagnitude right).isInfinite = false := by
  unfold mulMagnitude
  extract_lets power
  have unscaled : twoTo power = 1 := by
    rw [twoTo, Int.toNat_of_nonpos small, Nat.pow_eq, Nat.pow_zero]
  have productBelow : left.significand * right.significand < 2 ^ 106 :=
    calc left.significand * right.significand < 2 ^ 53 * 2 ^ 53 :=
          Nat.mul_lt_mul'' left.significand_lt right.significand_lt
      _ = 2 ^ 106 := (Nat.pow_add ..).symm
  have bits : (ofRatio (left.significand * right.significand * twoTo power)
      (twoTo (-power))).magnitudeBits ≤ (105 + 1026) * fractionModulus := by
    apply magnitudeBits_ofRatio_le (Nat.pow_pos (by decide))
    rw [unscaled, Nat.mul_one]
    by_cases zero : left.significand * right.significand = 0
    · rw [zero]
      exact Nat.zero_le _
    · have logBelow := (Nat.log2_lt zero).2 productBelow
      omega
  have modulus : fractionModulus = 2 ^ 52 := rfl
  rw [isInfinite, beq_eq_false_iff_ne, infinityBits]
  omega

end MappingForms.Binary64
