import MappingForms.Proofs.Source.Lexis

/-!
Contract: which quoted strings are literals of the generated language.

Owns: the characters that end a line of source, the texts that are literals of a string, and the
strings whose quoted form is one.

A literal stands between quotes on one line. Inside of it a quote is escaped, and a character that
ends a line may not stand as it is. Five characters end a line. Quoting escapes three of them: the
line feed, the carriage return and the next-line character are control characters. The line
separator and the paragraph separator are not, and are written as they are.
-/

set_option autoImplicit false

namespace MappingForms

namespace Source

/-- The line separator and the paragraph separator. -/
def isSeparator (c : Char) : Bool := c == '\u2028' || c == '\u2029'

/-- The characters that end a line of source. -/
def isLineTerminator (c : Char) : Bool :=
  c == '\n' || c == '\r' || c == '\u0085' || isSeparator c

/-- Whether a quote stands in a text that no backslash escapes. -/
def hasBareQuote : List Char → Bool
  | [] => false
  | '\\' :: _ :: rest => hasBareQuote rest
  | c :: rest => c == '"' || hasBareQuote rest

/-- A text is a literal of a string: it stands between quotes, with no bare quote and no end of a
line in between, and what is read up to the closing quote is the string. -/
def IsLiteral (literal value : String) : Prop :=
  ∃ inside, literal.toList = '"' :: (inside ++ ['"']) ∧ hasBareQuote inside = false ∧
    inside.any isLineTerminator = false ∧ unquote? (inside ++ ['"']) = some (value.toList, [])

/-! ## Characters inside quotes -/

private theorem hasBareQuote_cons {c : Char} (notBackslash : c ≠ '\\') (rest : List Char) :
    hasBareQuote (c :: rest) = (c == '"' || hasBareQuote rest) := by
  rw [hasBareQuote]
  simp [notBackslash]

private theorem all_hexCode : ∀ code < 160,
    (hexCode code).all (fun c => c != '"' && c != '\\' && !isLineTerminator c) = true := by
  decide +kernel

/-- Hexadecimal digits are neither quotes nor backslashes and end no line. -/
theorem mem_hexCode {code : Nat} (small : code < 160) {c : Char} (listed : c ∈ hexCode code) :
    c ≠ '"' ∧ c ≠ '\\' ∧ isLineTerminator c = false := by
  simpa [and_assoc] using List.all_eq_true.1 (all_hexCode code small) c listed

private theorem hasBareQuote_append {text : List Char} (harmless : ∀ c ∈ text, c ≠ '"' ∧ c ≠ '\\')
    (rest : List Char) : hasBareQuote (text ++ rest) = hasBareQuote rest := by
  induction text with
  | nil => rfl
  | cons c text inductionHypothesis =>
    obtain ⟨⟨notQuote, notBackslash⟩, others⟩ := List.forall_mem_cons.1 harmless
    rw [List.cons_append, hasBareQuote_cons notBackslash, inductionHypothesis others]
    simp [notQuote]

private theorem hasBareQuote_escapeChar (c : Char) (rest : List Char) :
    hasBareQuote (escapeChar c ++ rest) = hasBareQuote rest := by
  rcases escapeChar_cases c with ⟨mark, -, -, written⟩ | ⟨small, written⟩ |
    ⟨notQuote, notBackslash, -, written⟩
  · rw [written]
    rfl
  · rw [written]
    exact hasBareQuote_append
      (fun digit listed => (mem_hexCode small listed).imp_right And.left) rest
  · rw [written]
    exact hasBareQuote_append (by simp [notQuote, notBackslash]) rest

/-- Of the characters that end a line, those that are not control characters are separators. -/
theorem isLineTerminator_eq_isSeparator {c : Char} (notControl : isControl c = false) :
    isLineTerminator c = isSeparator c := by
  have different : ∀ control, isControl control = true → (c == control) = false := by
    rintro control controls
    rw [beq_eq_false_iff_ne]
    rintro rfl
    rw [notControl] at controls
    cases controls
  rw [isLineTerminator, different '\n' rfl, different '\r' rfl, different '\u0085' rfl]
  rfl

/-- No mark ends a line, and no character that has a mark is a separator. -/
theorem isLineTerminator_of_mark {mark c : Char} (meaning : charOfMark? mark = some c) :
    isLineTerminator mark = false ∧ isSeparator c = false := by
  unfold charOfMark? at meaning
  split at meaning
  · rename_i itself
    cases meaning
    rcases itself with rfl | rfl <;> decide
  · split_ifs at meaning <;> cases meaning <;> subst_vars <;> decide

/-- The escaped form of a character ends a line only if it is a separator as it is. -/
theorem filter_escapeChar (c : Char) :
    (escapeChar c).filter isLineTerminator = [c].filter isSeparator := by
  have noneEnds : ∀ text : List Char, (∀ digit ∈ text, isLineTerminator digit = false) →
      text.filter isLineTerminator = [] :=
    fun text plain => List.filter_eq_nil_iff.2 fun digit listed => by simp [plain digit listed]
  rcases escapeChar_cases c with ⟨mark, -, meaning, written⟩ | ⟨small, written⟩ |
    ⟨-, -, notControl, written⟩
  · obtain ⟨markPlain, notSeparator⟩ := isLineTerminator_of_mark meaning
    have backslashPlain : isLineTerminator '\\' = false := rfl
    rw [written, noneEnds _ (by simp [backslashPlain, markPlain])]
    simp [notSeparator]
  · have notSeparator : isSeparator c = false := by
      simp only [isSeparator, Bool.or_eq_false_iff, beq_eq_false_iff_ne]
      constructor <;> rintro rfl <;> exact absurd small (by decide)
    have digitsPlain := noneEnds _ fun digit listed => (mem_hexCode small listed).2.2
    rw [written, List.filter_cons_of_neg (by decide), List.filter_cons_of_neg (by decide),
      digitsPlain]
    simp [notSeparator]
  · rw [written, List.filter_congr]
    simpa using isLineTerminator_eq_isSeparator notControl

/-! ## Quoted strings -/

private theorem hasBareQuote_flatMap_escapeChar (contents : List Char) :
    hasBareQuote (contents.flatMap escapeChar) = false := by
  induction contents with
  | nil => rfl
  | cons c contents inductionHypothesis =>
    rw [List.flatMap_cons, hasBareQuote_escapeChar, inductionHypothesis]

private theorem filter_flatMap_escapeChar (contents : List Char) :
    (contents.flatMap escapeChar).filter isLineTerminator = contents.filter isSeparator := by
  induction contents with
  | nil => rfl
  | cons c contents inductionHypothesis =>
    rw [List.flatMap_cons, List.filter_append, filter_escapeChar, inductionHypothesis,
      ← List.filter_append, List.singleton_append]

/-- The quoted form of every string stands between quotes, has no bare quote in between and reads
back as the string. The characters in it that end a line are the separators of the string. So it
is a literal of the string exactly when the string holds neither a line separator nor a paragraph
separator. -/
theorem stringLiteral_isLiteral_iff (value : String) :
    (∃ inside, (stringLiteral value).toList = '"' :: (inside ++ ['"']) ∧
      hasBareQuote inside = false ∧
      inside.filter isLineTerminator = value.toList.filter isSeparator ∧
      unquote? (inside ++ ['"']) = some (value.toList, [])) ∧
    (IsLiteral (stringLiteral value) value ↔ value.toList.any isSeparator = false) := by
  have spelled : (stringLiteral value).toList =
      '"' :: (value.toList.flatMap escapeChar ++ ['"']) := by
    rw [stringLiteral, String.toList_ofList, List.cons_append]
  have bare := hasBareQuote_flatMap_escapeChar value.toList
  have ends := filter_flatMap_escapeChar value.toList
  have reads := unquote?_stringLiteral value.toList []
  refine ⟨⟨_, spelled, bare, ends, reads⟩, ?_⟩
  have plainIff : (value.toList.flatMap escapeChar).any isLineTerminator = false ↔
      value.toList.any isSeparator = false := by
    rw [List.any_eq_false, List.any_eq_false, ← List.filter_eq_nil_iff, ← List.filter_eq_nil_iff,
      ends]
  constructor
  · rintro ⟨inside, insideEq, -, plain, -⟩
    rw [spelled, List.cons_inj_right, List.append_left_inj] at insideEq
    rw [← insideEq] at plain
    exact plainIff.1 plain
  · exact fun plain => ⟨_, spelled, bare, plainIff.2 plain, reads⟩

namespace SeparatedLines

def value : String := "a\u2028b"

/-- The separator is written as it is, so the quoted form is a literal of no string. With the code
of the separator it would be a literal of the two lines. -/
theorem quoted_form_is_no_literal :
    stringLiteral value = "\"a\u2028b\"" ∧ (∀ other, ¬IsLiteral (stringLiteral value) other) ∧
    IsLiteral "\"a\\u2028b\"" value := by
  have spelled : stringLiteral value = "\"a\u2028b\"" := by decide
  refine ⟨spelled, ?_, ?_⟩
  · rintro other ⟨inside, insideEq, -, plain, -⟩
    have insideIs : ['a', '\u2028', 'b'] = inside := by
      rw [spelled] at insideEq
      have chars : "\"a\u2028b\"".toList = '"' :: (['a', '\u2028', 'b'] ++ ['"']) := by decide
      rwa [chars, List.cons_inj_right, List.append_left_inj] at insideEq
    rw [← insideIs] at plain
    cases plain
  · exact ⟨['a', '\\', 'u', '2', '0', '2', '8', 'b'], by decide, by decide, by decide, by decide⟩

end SeparatedLines

end Source

end MappingForms
