import Mathlib.Data.Nat.Digits.Lemmas
import MappingForms.Proofs.Binary64.Rounding
import MappingForms.Proofs.Source.Lexis

/-!
Contract: the numerals of generated source and the numbers they stand for.

Owns: numerals by their parts, their text, and the numerals of integers and of doubles.

The text of a numeral determines its parts, and the parts determine the number, so that no two
numbers are written alike.
-/

set_option autoImplicit false

namespace MappingForms

namespace Source

/-- A numeral: digits, with a fraction and an exponent if there are any. -/
@[ext]
structure Numeral where
  negative : Bool
  whole : List Char
  fraction : List Char
  exponent : Option Int
  wholeDigits : ∀ c ∈ whole, c.isDigit = true
  fractionDigits : ∀ c ∈ fraction, c.isDigit = true
  nonempty : whole ≠ []

namespace Numeral

/-! ### Integers in text -/

def signText (negative : Bool) : List Char := if negative then ['-'] else []

private theorem mem_signText {negative : Bool} {c : Char} (listed : c ∈ signText negative) :
    (c == '-') = true := by
  cases negative <;> simp_all [signText]

private theorem signText_injective {left right : Bool} (same : signText left = signText right) :
    left = right := by
  cases left <;> cases right <;> simp_all [signText]

theorem isDigit_of_mem_toDigits {value : Nat} {c : Char} (listed : c ∈ Nat.toDigits 10 value) :
    c.isDigit = true :=
  Nat.isDigit_of_mem_toDigits (by decide) (by decide) listed

/-- An integer is written as its sign and its decimal digits. -/
theorem toList_toString (value : Int) :
    (toString value).toList = signText (value < 0) ++ Nat.toDigits 10 value.natAbs := by
  rw [Int.toString_eq_repr, Int.repr_eq_if]
  by_cases negative : value < 0
  · have absolute : (-value).toNat = value.natAbs := by omega
    rw [if_neg (by omega), absolute]
    simp [Nat.repr_eq_ofList_toDigits, signText, negative]
  · have absolute : value.toNat = value.natAbs := by omega
    rw [if_pos (by omega), absolute]
    simp [Nat.repr_eq_ofList_toDigits, signText, negative]

/-- A text is cut in one way only after its leading characters of a kind. -/
theorem append_inj_of_startsWith {kind : Char → Bool} {left left' right right' : List Char}
    (all : ∀ c ∈ left, kind c = true) (all' : ∀ c ∈ left', kind c = true)
    (ended : startsWith kind right = false) (ended' : startsWith kind right' = false)
    (same : left ++ right = left' ++ right') : left = left' ∧ right = right' := by
  have taken := congrArg (List.takeWhile kind) same
  rw [List.takeWhile_append_of_pos all, List.takeWhile_append_of_pos all',
    takeWhile_eq_nil_of_startsWith ended, takeWhile_eq_nil_of_startsWith ended',
    List.append_nil, List.append_nil] at taken
  exact ⟨taken, List.append_cancel_left (taken ▸ same)⟩

/-- Digits do not start with a sign. -/
theorem not_startsWith_sign {digits : List Char} (all : ∀ c ∈ digits, c.isDigit = true)
    (nonempty : digits ≠ []) (rest : List Char) :
    startsWith (· == '-') (digits ++ rest) = false := by
  cases digits with
  | nil => exact absurd rfl nonempty
  | cons c digits =>
    have digit := all c List.mem_cons_self
    refine beq_eq_false_iff_ne.2 ?_
    rintro rfl
    exact absurd digit (by decide)

private theorem toDigits_injective {left right : Nat}
    (same : Nat.toDigits 10 left = Nat.toDigits 10 right) : left = right := by
  have values := congrArg (Nat.ofDigitChars 10 · 0) same
  simpa using values

private theorem toString_injective {left right : Int}
    (same : (toString left).toList = (toString right).toList) : left = right := by
  have unsigned (value : Nat) : startsWith (· == '-') (Nat.toDigits 10 value) = false := by
    have noSign := not_startsWith_sign (fun _ => isDigit_of_mem_toDigits)
      (Nat.toDigits_ne_nil (n := value)) []
    rwa [List.append_nil] at noSign
  rw [toList_toString, toList_toString] at same
  obtain ⟨signs, digits⟩ := append_inj_of_startsWith (fun _ => mem_signText)
    (fun _ => mem_signText) (unsigned _) (unsigned _) same
  have signEq := signText_injective signs
  have absoluteEq := toDigits_injective digits
  simp only [decide_eq_decide] at signEq
  omega

private theorem isNumeral_signText (negative : Bool) : isNumeral (signText negative) = true := by
  cases negative <;> rfl

private theorem isNumeral_toString (value : Int) : isNumeral (toString value).toList = true := by
  rw [toList_toString]
  exact isNumeral_append (isNumeral_signText _)
    (isNumeral_of_digits fun _ => isDigit_of_mem_toDigits)

/-! ### The text of a numeral -/

def fractionText (fraction : List Char) : List Char :=
  if fraction = [] then [] else '.' :: fraction

def exponentText : Option Int → List Char
  | none => []
  | some exponent => 'e' :: (toString exponent).toList

def text (numeral : Numeral) : List Char :=
  signText numeral.negative ++
    (numeral.whole ++ (fractionText numeral.fraction ++ exponentText numeral.exponent))

private theorem mem_fractionText {fraction : List Char} {c : Char}
    (digits : ∀ c ∈ fraction, c.isDigit = true) (listed : c ∈ fractionText fraction) :
    (c == '.' || c.isDigit) = true := by
  unfold fractionText at listed
  split at listed
  · exact absurd listed List.not_mem_nil
  rcases List.mem_cons.1 listed with rfl | listed
  · rfl
  · simp [digits c listed]

private theorem fractionText_injective {left right : List Char}
    (same : fractionText left = fractionText right) : left = right := by
  unfold fractionText at same
  split at same <;> split at same <;> simp_all

private theorem exponentText_injective {left right : Option Int}
    (same : exponentText left = exponentText right) : left = right := by
  cases left <;> cases right
  · rfl
  · simp [exponentText] at same
  · simp [exponentText] at same
  · rw [toString_injective (List.cons.inj same).2]

private theorem startsWith_exponentText {kind : Char → Bool} (other : kind 'e' = false)
    (exponent : Option Int) : startsWith kind (exponentText exponent) = false := by
  cases exponent
  · rfl
  · exact other

private theorem startsWith_fractionText {kind : Char → Bool} (otherPoint : kind '.' = false)
    (other : kind 'e' = false) (fraction : List Char) (exponent : Option Int) :
    startsWith kind (fractionText fraction ++ exponentText exponent) = false := by
  unfold fractionText
  split
  · exact startsWith_exponentText other exponent
  · exact otherPoint

/-- The text of a numeral determines all its parts. -/
theorem text_injective {left right : Numeral} (same : left.text = right.text) : left = right := by
  obtain ⟨signEq, same⟩ := append_inj_of_startsWith (fun _ => mem_signText) (fun _ => mem_signText)
    (not_startsWith_sign left.wholeDigits left.nonempty _)
    (not_startsWith_sign right.wholeDigits right.nonempty _) same
  obtain ⟨wholeEq, same⟩ := append_inj_of_startsWith left.wholeDigits right.wholeDigits
    (startsWith_fractionText rfl rfl _ _) (startsWith_fractionText rfl rfl _ _) same
  obtain ⟨fractionEq, exponentEq⟩ := append_inj_of_startsWith
    (fun _ => mem_fractionText left.fractionDigits) (fun _ => mem_fractionText right.fractionDigits)
    (startsWith_exponentText rfl _) (startsWith_exponentText rfl _) same
  exact Numeral.ext (signText_injective signEq) wholeEq (fractionText_injective fractionEq)
    (exponentText_injective exponentEq)

private theorem isNumeral_fractionText {fraction : List Char}
    (digits : ∀ c ∈ fraction, c.isDigit = true) : isNumeral (fractionText fraction) = true := by
  unfold fractionText
  split
  next => rfl
  next nonempty =>
    obtain ⟨c, rest, rfl⟩ := List.exists_cons_of_ne_nil nonempty
    have starts : startsWith Char.isDigit (c :: rest) = true := digits c List.mem_cons_self
    rw [isNumeral, starts, isNumeral_of_digits digits]
    rfl

private theorem isNumeral_exponentText (exponent : Option Int) :
    isNumeral (exponentText exponent) = true := by
  cases exponent with
  | none => rfl
  | some exponent =>
    change isNumeral (['e'] ++ _) = true
    exact isNumeral_append rfl (isNumeral_toString exponent)

/-- The text of a numeral is a numeral. -/
theorem isNumeral_text (numeral : Numeral) : isNumeral numeral.text = true :=
  isNumeral_append (isNumeral_signText _) (isNumeral_append
    (isNumeral_of_digits numeral.wholeDigits)
    (isNumeral_append (isNumeral_fractionText numeral.fractionDigits) (isNumeral_exponentText _)))

/-- Numerals start with a digit or a sign. -/
theorem startsWith_text (numeral : Numeral) :
    startsWith (fun c => c.isDigit || c == '-') numeral.text = true := by
  unfold text
  cases numeral.negative with
  | true => rfl
  | false =>
    obtain ⟨c, whole, wholeEq⟩ := List.exists_cons_of_ne_nil numeral.nonempty
    have digit := numeral.wholeDigits c (wholeEq ▸ List.mem_cons_self)
    simp [signText, wholeEq, digit]

/-! ### The numeral of an integer -/

def ofInt (value : Int) : Numeral where
  negative := decide (value < 0)
  whole := Nat.toDigits 10 value.natAbs
  fraction := []
  exponent := none
  wholeDigits _ := isDigit_of_mem_toDigits
  fractionDigits _ listed := absurd listed List.not_mem_nil
  nonempty := Nat.toDigits_ne_nil

theorem text_ofInt (value : Int) : (ofInt value).text = (toString value).toList := by
  rw [toList_toString]
  simp [text, ofInt, fractionText, exponentText]

/-! ### The numeral of a double -/

def magnitude (numeral : Numeral) : ℚ :=
  Nat.ofDigitChars 10 (numeral.whole ++ numeral.fraction) 0 *
    10 ^ (numeral.exponent.getD 0 - numeral.fraction.length)

/-- Digits with a point after some of them, one or more. -/
def ofDigits (negative : Bool) (digits : List Char) (places : Nat) (exponent : Option Int)
    (all : ∀ c ∈ digits, c.isDigit = true) (some : digits ≠ [] ∧ 0 < places) : Numeral where
  negative := negative
  whole := digits.take places
  fraction := digits.drop places
  exponent := exponent
  wholeDigits c listed := all c (List.mem_of_mem_take listed)
  fractionDigits c listed := all c (List.mem_of_mem_drop listed)
  nonempty := by
    rw [Ne, List.take_eq_nil_iff, not_or]
    exact ⟨some.2.ne', some.1⟩

private theorem magnitude_ofDigits (negative : Bool) (digits : List Char) (places : Nat)
    (exponent : Option Int) (all : ∀ c ∈ digits, c.isDigit = true)
    (some : digits ≠ [] ∧ 0 < places) :
    (ofDigits negative digits places exponent all some).magnitude =
      Nat.ofDigitChars 10 digits 0 * 10 ^ (exponent.getD 0 - (digits.length - places : Nat)) := by
  simp [magnitude, ofDigits]

/-- Where the point of a decimal stands: after some of its digits, with zeros added before and
after them as needed, and with an exponent if it stands elsewhere than its place. -/
structure Layout (length : Nat) (power : Int) where
  before : Nat
  after : Nat
  places : Nat
  exponent : Option Int
  placesPos : 0 < places
  keeps : (after : Int) + (exponent.getD 0 - (before + length + after - places : Nat)) = power
  marked : exponent = none → places < before + length + after

def layout (length : Nat) (power : Int) (nonempty : 0 < length) : Layout length power :=
  let point : Int := length + power
  if positional : Binary64.leastPositional < point ∧ point ≤ Binary64.positionalLimit then
    if leading : point ≤ 0 then
      ⟨(1 - point).toNat, 0, 1, none, by decide, by simp; omega, by omega⟩
    else if trailing : length ≤ point then
      ⟨0, point.toNat - length + 1, point.toNat, none, by omega, by simp; omega, by omega⟩
    else
      ⟨0, 0, point.toNat, none, by omega, by simp; omega, by omega⟩
  else
    ⟨0, 0, 1, some (point - 1), by decide, by simp; omega, by simp⟩

private theorem isDigit_of_mem_padded {digits : List Char} (all : ∀ c ∈ digits, c.isDigit = true)
    {before after : Nat} {c : Char}
    (listed : c ∈ List.replicate before '0' ++ digits ++ List.replicate after '0') :
    c.isDigit = true := by
  simp only [List.mem_append, List.mem_replicate] at listed
  rcases listed with (⟨-, rfl⟩ | listed) | ⟨-, rfl⟩
  · rfl
  · exact all c listed
  · rfl

theorem toList_toString_nat (value : Nat) : (toString value).toList = Nat.toDigits 10 value := by
  simp

private theorem length_toString_pos (value : Nat) : 0 < (toString value).length := by
  rw [← String.length_toList, toList_toString_nat]
  exact Nat.length_toDigits_pos

def ofDecimal (negative : Bool) (decimal : Decimal) : Numeral :=
  let digits := toString decimal.digits
  let chosen := layout digits.length decimal.exponent (length_toString_pos _)
  ofDigits negative
    (List.replicate chosen.before '0' ++ digits.toList ++ List.replicate chosen.after '0')
    chosen.places chosen.exponent
    (fun _ => isDigit_of_mem_padded fun _ listed =>
      isDigit_of_mem_toDigits (toList_toString_nat decimal.digits ▸ listed))
    ⟨by simp [digits, Nat.toDigits_ne_nil], chosen.placesPos⟩

private theorem magnitude_ofDecimal (negative : Bool) (decimal : Decimal) :
    (ofDecimal negative decimal).magnitude = decimal.value := by
  unfold ofDecimal
  extract_lets digits chosen
  rw [magnitude_ofDigits]
  have digitsEq : Nat.ofDigitChars 10
      (List.replicate chosen.before '0' ++ digits.toList ++ List.replicate chosen.after '0') 0 =
        10 ^ chosen.after * decimal.digits := by
    rw [toList_toString_nat]
    simp [Nat.ofDigitChars_append, Nat.ofDigitChars_replicate_zero]
  have scaleEq : (10 : ℚ) ^ decimal.exponent = 10 ^ chosen.after * 10 ^ (chosen.exponent.getD 0 -
      (chosen.before + digits.length + chosen.after - chosen.places : Nat)) := by
    rw [← zpow_natCast, ← zpow_add₀ (by decide), chosen.keeps]
  rw [digitsEq, Decimal.value, scaleEq]
  simp only [List.length_append, List.length_replicate, String.length_toList]
  push_cast
  ring

/-- A decimal is written with a fraction or an exponent. -/
theorem ofDecimal_isFractional (negative : Bool) (decimal : Decimal) :
    (ofDecimal negative decimal).exponent = none →
      (ofDecimal negative decimal).fraction ≠ [] := by
  unfold ofDecimal
  extract_lets digits chosen
  intro none
  have marked := chosen.marked none
  rw [ofDigits, Ne, List.drop_eq_nil_iff]
  simp only [List.length_append, List.length_replicate, String.length_toList]
  omega

/-- Digits as they are laid out for doubles, with a point that is moved by the given power. -/
def digitsText (digits : String) (power : Int) : String :=
  let point : Int := digits.length + power
  if Binary64.leastPositional < point ∧ point ≤ Binary64.positionalLimit then
    Binary64.positional digits point
  else Binary64.scientific digits (point - 1)

private theorem toList_pushn (c : Char) (count : Nat) :
    ("".pushn c count).toList = List.replicate count c := by
  rw [String.pushn_eq_repeat_push]
  induction count with
  | zero => rfl
  | succ count inductionHypothesis =>
    rw [Nat.repeat, String.toList_push, inductionHypothesis, List.replicate_succ']

/-- The chosen layout is the one that is written. -/
theorem toList_digitsText (digits : String) (power : Int) (nonempty : 0 < digits.length)
    (padded : List Char) (chosen : Layout digits.length power)
    (chosenEq : chosen = layout digits.length power nonempty)
    (paddedEq : padded =
      List.replicate chosen.before '0' ++ digits.toList ++ List.replicate chosen.after '0') :
    (digitsText digits power).toList = padded.take chosen.places ++
      (fractionText (padded.drop chosen.places) ++ exponentText chosen.exponent) := by
  unfold layout at chosenEq
  extract_lets point at chosenEq
  have lengthEq : digits.toList.length = digits.length := String.length_toList
  have digitsNe : digits.toList ≠ [] := List.ne_nil_of_length_pos (lengthEq ▸ nonempty)
  split_ifs at chosenEq with positional leading trailing
  · have beforeEq : (1 - point).toNat = (-point).toNat + 1 := by omega
    subst chosenEq paddedEq
    rw [digitsText, if_pos positional, Binary64.positional, if_pos leading]
    simp [toList_pushn, beforeEq, List.replicate_succ, fractionText, exponentText, digitsNe, point]
  · obtain ⟨zeros, zerosEq⟩ : ∃ zeros, point.toNat = digits.length + zeros :=
      ⟨point.toNat - digits.length, by omega⟩
    subst chosenEq paddedEq
    rw [digitsText, if_pos positional, Binary64.positional, if_neg leading, if_pos trailing]
    have takeEq : (digits.toList ++ List.replicate (zeros + 1) '0').take (digits.length + zeros) =
        digits.toList ++ List.replicate zeros '0' := by
      rw [← lengthEq, List.take_length_add_append]
      simp
    have dropEq : (digits.toList ++ List.replicate (zeros + 1) '0').drop (digits.length + zeros) =
        ['0'] := by
      rw [← lengthEq, List.drop_length_add_append]
      simp
    simp [toList_pushn, zerosEq, fractionText, exponentText, point, takeEq, dropEq,
      -List.drop_eq_nil_iff]
  · subst chosenEq paddedEq
    rw [digitsText, if_pos positional, Binary64.positional, if_neg leading, if_neg trailing]
    have inside : point.toNat < digits.toList.length := by omega
    simp [fractionText, exponentText, point, inside]
  · subst chosenEq paddedEq
    rw [digitsText, if_neg positional, Binary64.scientific]
    obtain ⟨first, rest, charsEq⟩ := List.exists_cons_of_ne_nil digitsNe
    cases rest with
    | nil => simp [charsEq, fractionText, exponentText, point]
    | cons second rest => simp [charsEq, fractionText, exponentText, point]

private theorem text_ofDecimal (negative : Bool) (decimal : Decimal) :
    (ofDecimal negative decimal).text =
      signText negative ++ (digitsText (toString decimal.digits) decimal.exponent).toList := by
  rw [toList_digitsText _ _ (length_toString_pos _) _ _ rfl rfl]
  rfl

def ofNumber (number : Binary64) : Numeral :=
  if number.isZero then ofDecimal number.isNegative ⟨0, 0⟩
  else ofDecimal number.isNegative number.shortest

/-- The numeral of a double is its text. -/
theorem text_ofNumber (number : Binary64) : (ofNumber number).text = number.text.toList := by
  have magnitudeEq : number.magnitudeText =
      if number.isZero then "0.0"
      else digitsText (toString number.shortest.digits) number.shortest.exponent := rfl
  have signEq : number.text.toList =
      signText number.isNegative ++ number.magnitudeText.toList := by
    rw [Binary64.text]
    cases number.isNegative <;> simp [signText]
  rw [signEq, magnitudeEq, ofNumber]
  split
  · rw [text_ofDecimal]
    rfl
  · exact text_ofDecimal ..

private theorem negative_ofNumber (number : Binary64) :
    (ofNumber number).negative = number.isNegative := by
  unfold ofNumber
  split <;> rfl

private theorem roundsTo_ofNumber (number : Binary64) :
    Binary64.RoundsTo (ofNumber number).magnitude number.magnitudeBits := by
  unfold ofNumber
  split
  next zero =>
    have magnitudeZero : number.magnitudeBits = 0 := eq_of_beq zero
    rw [magnitude_ofDecimal, magnitudeZero]
    simpa [Decimal.value] using Binary64.roundsTo_zero
  next nonzero =>
    rw [magnitude_ofDecimal]
    exact Binary64.roundsTo_shortest (Bool.eq_false_iff.2 nonzero)

/-- Distinct doubles have distinct numerals. -/
theorem ofNumber_injective {left right : Binary64} (same : ofNumber left = ofNumber right) :
    left = right := by
  have signEq : left.isNegative = right.isNegative := by
    rw [← negative_ofNumber, ← negative_ofNumber, same]
  have rounds := roundsTo_ofNumber left
  rw [same] at rounds
  exact Binary64.eq_of_magnitude signEq (rounds.unique (roundsTo_ofNumber right))

private theorem ofInt_injective {left right : Int} (same : ofInt left = ofInt right) :
    left = right :=
  toString_injective (by rw [← text_ofInt, ← text_ofInt, same])

/-- No integer is written like a double. -/
theorem ofInt_ne_ofNumber (value : Int) (number : Binary64) : ofInt value ≠ ofNumber number := by
  intro same
  have fractional : (ofNumber number).exponent = none → (ofNumber number).fraction ≠ [] := by
    unfold ofNumber
    split <;> exact ofDecimal_isFractional _ _
  rw [← same] at fractional
  exact fractional rfl rfl

def ofLiteral? : Literal → Option Numeral
  | .integer value => some (ofInt value.toInt)
  | .float value => some (ofNumber value)
  | _ => none

private theorem ofLiteral?_injective {left right : Literal} {numeral : Numeral}
    (leftEq : ofLiteral? left = some numeral) (rightEq : ofLiteral? right = some numeral) :
    left = right := by
  cases left <;> cases right <;> simp only [ofLiteral?, Option.some.injEq, reduceCtorEq] at *
  · rw [Int64.toInt_inj.1 (ofInt_injective (leftEq.trans rightEq.symm))]
  · exact absurd (leftEq.trans rightEq.symm) (ofInt_ne_ofNumber _ _)
  · exact absurd (rightEq.trans leftEq.symm) (ofInt_ne_ofNumber _ _)
  · rw [ofNumber_injective (leftEq.trans rightEq.symm)]

/-- What it takes to read numerals: each literal comes back from the text of its numeral. -/
def Decodes (decode : List Char → Option Literal) : Prop :=
  ∀ literal numeral, ofLiteral? literal = some numeral → decode numeral.text = some literal

/-- Numerals can be read, since no two literals are written alike. -/
theorem exists_decodes : ∃ decode, Decodes decode := by
  classical
  refine ⟨fun text => if written : ∃ literal numeral, ofLiteral? literal = some numeral ∧
    numeral.text = text then some written.choose else none, fun literal numeral numeralEq => ?_⟩
  have written : ∃ literal other, ofLiteral? literal = some other ∧ other.text = numeral.text :=
    ⟨literal, numeral, numeralEq, rfl⟩
  obtain ⟨other, otherEq, textEq⟩ := written.choose_spec
  rw [text_injective textEq] at otherEq
  exact (dif_pos written).trans (congrArg some (ofLiteral?_injective otherEq numeralEq))

end Numeral

end Source

end MappingForms
