import MappingForms.Json.Token
import MappingForms.Proofs.Binary64.Range
import MappingForms.Proofs.Json.Decoding
import MappingForms.Proofs.Source.Numeral

/-!
Contract: JSON numbers and their text.

Owns: that an integer is read back from what is written for it, that integers of 64 bits are in
the range of doubles, and that a number is scanned from its own text.
-/

set_option autoImplicit false

namespace MappingForms.Json

namespace Numeral

private theorem toInt?_ofInt (value : Int) : (ofInt value).toInt? = some value := by
  unfold ofInt
  by_cases negative : value < 0
  · obtain ⟨magnitude, natAbsEq⟩ : ∃ magnitude, value.natAbs = magnitude + 1 :=
      ⟨value.natAbs - 1, by omega⟩
    rw [decide_eq_true negative, natAbsEq]
    exact congrArg some (by omega)
  · rw [decide_eq_false negative]
    exact congrArg some (by omega)

private theorem magnitude?_isSome {magnitude : Nat} (inRange : magnitude < significandLimit) :
    (magnitude? magnitude [] 0).isSome = true := by
  have uncut : cutDigits magnitude = (magnitude, 0) := by
    rw [cutDigits, if_pos inRange]
  have small : (Binary64.ofNat magnitude).exponent + (powerOfTen 0).exponent ≤ 0 := by
    have valueSmall : (Binary64.ofNat magnitude).exponent ≤ (63 : Nat) - 49 :=
      Binary64.exponent_ofNat_le inRange
    have oneSmall : (powerOfTen 0).exponent ≤ (0 : Nat) - 49 :=
      Binary64.exponent_ofNat_le (by decide)
    omega
  have finite := Binary64.mulMagnitude_finite small
  simp only [magnitude?, uncut, takeDigits]
  show (scaled (.ofNat magnitude) 0).isSome = true
  unfold scaled
  split
  · rfl
  · rw [if_pos (Int.le_refl 0), if_pos (by decide)]
    show (if ((Binary64.ofNat magnitude).mulMagnitude (powerOfTen 0)).isInfinite = true then none
      else some _).isSome = true
    rw [finite]
    rfl

/-- An integer below the limit of significands is read as some double. -/
theorem toBinary64?_ofInt_isSome {value : Int} (inRange : value.natAbs < significandLimit) :
    (ofInt value).toBinary64?.isSome = true := by
  rw [ofInt, toBinary64?, Option.isSome_map]
  exact magnitude?_isSome inRange

/-! ## Digits -/

def digitChars (digits : List Nat) : List Char := digits.map Nat.digitChar

private theorem isDigit_digitChar {digit : Nat} (decimal : digit < 10) :
    digit.digitChar.isDigit = true := by
  have all : ∀ digit < 10, (Nat.digitChar digit).isDigit = true := by decide
  exact all digit decimal

private theorem digitsOf_digitChars {digits : List Nat} (decimal : ∀ digit ∈ digits, digit < 10) :
    digitsOf (digitChars digits) = digits := by
  have value : ∀ digit < 10, (Nat.digitChar digit).toNat - '0'.toNat = digit := by decide
  rw [digitsOf, digitChars, List.map_map]
  exact (List.map_congr_left fun digit listed => value digit (decimal digit listed)).trans
    (List.map_id digits)

private theorem isDigit_of_mem_digitChars {digits : List Nat}
    (decimal : ∀ digit ∈ digits, digit < 10) :
    ∀ c ∈ digitChars digits, c.isDigit = true := by
  intro c listed
  obtain ⟨digit, isDigit, rfl⟩ := List.mem_map.1 listed
  exact isDigit_digitChar (decimal digit isDigit)

private theorem toList_join_digits {digits : List Nat} (decimal : ∀ digit ∈ digits, digit < 10) :
    (String.join (digits.map toString)).toList = digitChars digits := by
  induction digits with
  | nil => rfl
  | cons first rest inductionHypothesis =>
    have firstText : (toString first).toList = [first.digitChar] := by
      rw [Source.Numeral.toList_toString_nat,
        Nat.toDigits_of_lt_base (decimal first List.mem_cons_self)]
    rw [List.map_cons, String.join_cons, String.toList_append, firstText,
      inductionHypothesis fun digit listed => decimal digit (List.mem_cons_of_mem _ listed)]
    rfl

private theorem valueOf_digitsOf (text : List Char) :
    valueOf (digitsOf text) = Nat.ofDigitChars 10 text 0 := by
  rw [valueOf, digitsOf, List.foldl_map, Nat.ofDigitChars]
  exact congrArg (fun step => text.foldl step 0)
    (funext fun value => funext fun c => by rw [Nat.mul_comm])

private theorem valueOf_toDigits (value : Nat) :
    valueOf (digitsOf (Nat.toDigits 10 value)) = value := by
  rw [valueOf_digitsOf, Nat.ofDigitChars_toDigits (by decide) (by decide)]

/-- No digit follows a zero at the front of the digits of a natural. -/
theorem exists_toDigits_cons {value : Nat} (positive : 0 < value) :
    ∃ first rest, Nat.toDigits 10 value = first :: rest ∧ first ≠ '0' := by
  induction value using Nat.strongRecOn with
  | ind value inductionHypothesis =>
    by_cases small : value < 10
    · have nonzero : ∀ digit < 10, 0 < digit → Nat.digitChar digit ≠ '0' := by decide
      exact ⟨value.digitChar, [], Nat.toDigits_of_lt_base small, nonzero value small positive⟩
    · -- Without its last digit the natural starts with the same digit.
      obtain ⟨first, rest, quotientDigits, nonzero⟩ :=
        inductionHypothesis (value / 10) (by omega) (by omega)
      refine ⟨first, rest ++ [(value % 10).digitChar], ?_, nonzero⟩
      rw [Nat.toDigits_of_base_le (by decide) (Nat.not_lt.1 small), quotientDigits,
        List.cons_append]

/-! ## Scanning -/

open Source (startsWith startsWith_cons takeWhile_eq_nil_of_startsWith
  dropWhile_eq_self_of_startsWith)

private theorem scanDigits_append {digits rest : List Char} (all : ∀ c ∈ digits, c.isDigit = true)
    (stops : startsWith Char.isDigit rest = false) :
    scanDigits (digits ++ rest) = (digitsOf digits, rest) := by
  rw [scanDigits, List.takeWhile_append_of_pos all, List.dropWhile_append_of_pos all,
    takeWhile_eq_nil_of_startsWith stops, dropWhile_eq_self_of_startsWith stops, List.append_nil]

private theorem scanSomeDigits_append {digits rest : List Char}
    (all : ∀ c ∈ digits, c.isDigit = true)
    (nonempty : digits ≠ []) (stops : startsWith Char.isDigit rest = false) :
    scanSomeDigits (digits ++ rest) = some (digitsOf digits, rest) := by
  rw [scanSomeDigits, scanDigits_append all stops]
  cases digits with
  | nil => exact absurd rfl nonempty
  | cons => rfl

private theorem scanSomeDigits_toDigits (value : Nat) {rest : List Char}
    (stops : startsWith Char.isDigit rest = false) :
    scanSomeDigits (Nat.toDigits 10 value ++ rest) =
      some (digitsOf (Nat.toDigits 10 value), rest) :=
  scanSomeDigits_append (fun _ => Source.Numeral.isDigit_of_mem_toDigits) Nat.toDigits_ne_nil stops

private theorem scanWhole_append (value : Nat) {rest : List Char}
    (stops : startsWith Char.isDigit rest = false) :
    scanWhole (Nat.toDigits 10 value ++ rest) = some (value, rest) := by
  rcases Nat.eq_zero_or_pos value with rfl | positive
  · rfl
  · have scanned := scanSomeDigits_toDigits value stops
    obtain ⟨first, others, digitsEq, nonzero⟩ := exists_toDigits_cons positive
    rw [digitsEq, List.cons_append] at scanned ⊢
    rw [scanWhole, scanned, ← digitsEq]
    · exact congrArg (fun whole => some (whole, rest)) (valueOf_toDigits value)
    · intro later same
      exact nonzero (List.cons.inj same).1

/-- Whether a character goes on with the whole part of a number or starts a fraction. -/
def extendsWhole (c : Char) : Bool := c.isDigit || c == '.'

/-- Whether a character goes on with a number. -/
def extendsNumber (c : Char) : Bool := extendsWhole c || c == 'e' || c == 'E'

private theorem not_startsWith_of_imp {narrow wide : Char → Bool} {rest : List Char}
    (included : ∀ c, narrow c = true → wide c = true) (stops : startsWith wide rest = false) :
    startsWith narrow rest = false := by
  cases rest with
  | nil => rfl
  | cons c rest =>
    rw [startsWith_cons, Bool.eq_false_iff] at stops ⊢
    exact fun isNarrow => stops (included c isNarrow)

private theorem not_isDigit_of_stops {rest : List Char}
    (stops : startsWith extendsWhole rest = false) :
    startsWith Char.isDigit rest = false :=
  not_startsWith_of_imp (fun _ digit => Bool.or_eq_true_iff.2 (.inl digit)) stops

private theorem scanFraction_of_stops {rest : List Char}
    (stops : startsWith extendsWhole rest = false) :
    scanFraction rest = some (none, rest) := by
  cases rest with
  | nil => rfl
  | cons c rest =>
    rw [scanFraction]
    rintro later same
    obtain ⟨rfl, -⟩ := List.cons.inj same
    cases stops

section Ends

variable {rest : List Char} (ends : startsWith extendsNumber rest = false)
include ends

private theorem stops_of_ends : startsWith extendsWhole rest = false :=
  not_startsWith_of_imp (fun c goesOn => by simp [extendsNumber, goesOn]) ends

private theorem scanExponent_of_ends : scanExponent rest = some (none, rest) := by
  cases rest with
  | nil => rfl
  | cons c rest =>
    have notLetter : (c == 'e' || c == 'E') = false := by simp_all [extendsNumber]
    rw [scanExponent, notLetter]
    rfl

private theorem scanPower_append (power : Int) :
    scanPower ((toString power).toList ++ rest) = some (power, rest) := by
  have scanned := scanSomeDigits_toDigits power.natAbs (not_isDigit_of_stops (stops_of_ends ends))
  rw [Source.Numeral.toList_toString]
  by_cases negative : power < 0
  · rw [decide_eq_true negative]
    show (scanSomeDigits (Nat.toDigits 10 power.natAbs ++ rest)).map _ = _
    rw [scanned]
    refine congrArg (fun value => some (value, rest)) ?_
    have digitsValue := valueOf_toDigits power.natAbs
    omega
  · rw [decide_eq_false negative]
    show scanPower (Nat.toDigits 10 power.natAbs ++ rest) = _
    obtain ⟨first, others, digitsEq⟩ := List.exists_cons_of_ne_nil
      (Nat.toDigits_ne_nil : Nat.toDigits 10 power.natAbs ≠ [])
    have firstDigit : first.isDigit = true :=
      Source.Numeral.isDigit_of_mem_toDigits (digitsEq ▸ List.mem_cons_self)
    have noSign : first ≠ '-' ∧ first ≠ '+' := by
      constructor <;>
      · rintro rfl
        cases firstDigit
    rw [digitsEq, List.cons_append] at scanned ⊢
    rw [scanPower, scanned, ← digitsEq]
    · refine congrArg (fun value => some (value, rest)) ?_
      have digitsValue := valueOf_toDigits power.natAbs
      omega
    · intro later same
      exact noSign.1 (List.cons.inj same).1
    · intro later same
      exact noSign.2 (List.cons.inj same).1

end Ends

/-! ## The text of a number -/

/-- The digits after the point of a number are decimal. -/
def IsDecimal : Numeral → Prop
  | integer .. => True
  | decimal _ _ fraction _ => ∀ digit ∈ fraction, digit < 10

private theorem digit_lt_of_mem_digitsOf {value digit : Nat}
    (listed : digit ∈ digitsOf (Nat.toDigits 10 value)) : digit < 10 := by
  obtain ⟨c, isWritten, rfl⟩ := List.mem_map.1 listed
  have isDigit := Source.Numeral.isDigit_of_mem_toDigits isWritten
  simp only [Char.isDigit, Bool.and_eq_true, decide_eq_true_eq] at isDigit
  have upper : c.toNat ≤ 57 := isDigit.2
  show c.toNat - 48 < 10
  omega

/-- The digits that are written for a double are decimal. -/
theorem isDecimal_ofBinary64 (number : Binary64) : (ofBinary64 number).IsDecimal := by
  have zeroDecimal : ∀ digit ∈ [0], digit < 10 := by decide
  unfold ofBinary64
  split
  · exact zeroDecimal
  · dsimp only
    split
    · intro digit listed
      split at listed
      · exact zeroDecimal digit listed
      · have padded := List.mem_of_mem_drop listed
        rcases List.mem_append.1 padded with before | after
        · rcases List.mem_append.1 before with zero | written
          · rw [List.eq_of_mem_replicate zero]
            decide
          · exact digit_lt_of_mem_digitsOf written
        · rw [List.eq_of_mem_replicate after]
          decide
    · exact fun digit listed => digit_lt_of_mem_digitsOf (List.mem_of_mem_drop listed)

def fractionText (fraction : List Nat) : List Char :=
  if fraction.isEmpty then [] else '.' :: digitChars fraction

def exponentText (fraction : List Nat) (exponent : Int) : List Char :=
  if fraction.isEmpty || exponent != 0 then 'e' :: (toString exponent).toList else []

def unsignedText : Numeral → List Char
  | integer _ magnitude => Nat.toDigits 10 magnitude
  | decimal _ whole fraction exponent =>
    Nat.toDigits 10 whole ++ (fractionText fraction ++ exponentText fraction exponent)

def isNegative : Numeral → Bool
  | integer negative _ => negative
  | decimal negative _ _ _ => negative

/-- A number is written as its sign and the number without it. -/
theorem toList_text {numeral : Numeral} (written : numeral.IsDecimal) :
    numeral.text.toList = Source.Numeral.signText numeral.isNegative ++ numeral.unsignedText := by
  have sign (negative : Bool) :
      (if negative then "-" else "").toList = Source.Numeral.signText negative := by
    cases negative <;> rfl
  cases numeral with
  | integer negative magnitude =>
    rw [text, String.toList_append, sign, Source.Numeral.toList_toString_nat]
    rfl
  | decimal negative whole fraction exponent =>
    have fractionEq : (if fraction.isEmpty then "" else "." ++ String.join (fraction.map toString)
        ).toList = fractionText fraction := by
      unfold fractionText
      split
      · rfl
      · rw [String.toList_append, toList_join_digits written]
        rfl
    have exponentEq : (if fraction.isEmpty || exponent != 0 then "e" ++ toString exponent else ""
        ).toList = exponentText fraction exponent := by
      unfold exponentText
      split
      · rw [String.toList_append]
        rfl
      · rfl
    rw [text, String.toList_append, String.toList_append, String.toList_append, sign, fractionEq,
      exponentEq, Source.Numeral.toList_toString_nat]
    simp only [List.append_assoc]
    rfl

theorem exists_unsignedText_cons (numeral : Numeral) :
    ∃ first rest, numeral.unsignedText = first :: rest ∧ first.isDigit = true := by
  have digits (value : Nat) (later : List Char) :
      ∃ first rest, Nat.toDigits 10 value ++ later = first :: rest ∧ first.isDigit = true := by
    obtain ⟨first, rest, split⟩ := List.exists_cons_of_ne_nil
      (Nat.toDigits_ne_nil : Nat.toDigits 10 value ≠ [])
    refine ⟨first, rest ++ later, by rw [split, List.cons_append], ?_⟩
    exact Source.Numeral.isDigit_of_mem_toDigits (split ▸ List.mem_cons_self)
  cases numeral with
  | integer negative magnitude => simpa [unsignedText] using digits magnitude []
  | decimal negative whole fraction exponent => exact digits whole _

private theorem scanFraction_append {fraction : List Nat} (written : ∀ digit ∈ fraction, digit < 10)
    {rest : List Char} (stops : startsWith extendsWhole rest = false) :
    scanFraction (fractionText fraction ++ rest) =
      some (if fraction.isEmpty then none else some fraction, rest) := by
  cases fraction with
  | nil => exact scanFraction_of_stops stops
  | cons first others =>
    have scanned : scanSomeDigits (digitChars (first :: others) ++ rest) = _ :=
      scanSomeDigits_append (isDigit_of_mem_digitChars written) (List.cons_ne_nil _ _)
        (not_isDigit_of_stops stops)
    show (scanSomeDigits (digitChars (first :: others) ++ rest)).map _ = _
    rw [scanned, digitsOf_digitChars written]
    rfl

private theorem scanExponent_append (fraction : List Nat) (exponent : Int) {rest : List Char}
    (ends : startsWith extendsNumber rest = false) :
    scanExponent (exponentText fraction exponent ++ rest) =
      some (if fraction.isEmpty || exponent != 0 then some exponent else none, rest) := by
  unfold exponentText
  split
  · show (scanPower ((toString exponent).toList ++ rest)).map _ = _
    rw [scanPower_append ends]
    rfl
  · exact scanExponent_of_ends ends

/-- An exponent does not go on with the digits before it. -/
theorem stops_exponentText (fraction : List Nat) (exponent : Int) {rest : List Char}
    (ends : startsWith extendsNumber rest = false) :
    startsWith extendsWhole (exponentText fraction exponent ++ rest) = false := by
  unfold exponentText
  split
  · rfl
  · exact stops_of_ends ends

/-- A written number is scanned as one token, up to where it ends. -/
theorem scanNumber_unsignedText {numeral : Numeral} (written : numeral.IsDecimal)
    {rest : List Char} (ends : startsWith extendsNumber rest = false) :
    scanNumber numeral.isNegative (numeral.unsignedText ++ rest) =
      some (.number numeral, rest) := by
  cases numeral with
  | integer negative magnitude =>
    have stops := stops_of_ends ends
    exact bind_eq_some_of (scanWhole_append magnitude (not_isDigit_of_stops stops)) <|
      bind_eq_some_of (scanFraction_of_stops stops) <|
      bind_eq_some_of (scanExponent_of_ends ends) rfl
  | decimal negative whole fraction exponent =>
    have stops := stops_exponentText fraction exponent ends
    have afterWhole : startsWith Char.isDigit
        (fractionText fraction ++ (exponentText fraction exponent ++ rest)) = false := by
      unfold fractionText
      split
      · exact not_isDigit_of_stops stops
      · rfl
    rw [unsignedText, List.append_assoc, List.append_assoc]
    refine bind_eq_some_of (scanWhole_append whole afterWhole) <|
      bind_eq_some_of (scanFraction_append written stops) <|
      bind_eq_some_of (scanExponent_append fraction exponent ends) ?_
    cases fraction with
    | nil => rfl
    | cons first others =>
      by_cases zero : exponent = 0
      · rw [zero]
        rfl
      · have present : (exponent != 0) = true := by simpa using zero
        simp only [List.isEmpty_cons, Bool.false_or, present]
        rfl

end Numeral

theorem int?_int (value : Int) : (int value).int? = some value := Numeral.toInt?_ofInt value

end MappingForms.Json
