import Mathlib.Data.List.TakeWhile
import MappingForms.Source.Expression

/-!
Contract: the words, types, numerals and quoted strings of generated source.

Owns: the characters of words, identifiers and type names, and the scans that find the end of
a word, a type, a numeral or a quoted string.

Each scan takes the longest text of its kind. It recovers a written item from any text that
goes on with a character that cannot extend the item.
-/

set_option autoImplicit false

namespace MappingForms

namespace Source

/-- What remains of a text without the characters it starts with. -/
def without? : List Char → List Char → Option (List Char)
  | [], cs => some cs
  | _ :: _, [] => none
  | first :: mark, c :: cs => if first = c then without? mark cs else none

/-- The text after a mark. -/
def mark? (mark : String) (cs : List Char) : Option (Unit × List Char) :=
  (without? mark.toList cs).map ((), ·)

/-! ### Words -/

/-- A character of a word. Every character beyond ASCII counts. -/
def isWordChar (c : Char) : Bool := c.isAlphanum || c == '_' || c == '@' || 128 ≤ c.toNat

/-- The words that start something other than a name. -/
def reserved : List String := ["null", "true", "false", "double", "new", "throw"]

/-- Names are words that are not reserved and do not start with a digit. -/
def isIdentifier (name : String) : Bool :=
  name.toList.all isWordChar && (name.toList.head?.any fun c => !c.isDigit) &&
    !reserved.contains name

/-- Whether a text goes on with a character of the given kind. -/
def startsWith (kind : Char → Bool) (cs : List Char) : Bool := cs.head?.any kind

@[simp]
theorem startsWith_nil (kind : Char → Bool) : startsWith kind [] = false := rfl

@[simp]
theorem startsWith_cons (kind : Char → Bool) (c : Char) (rest : List Char) :
    startsWith kind (c :: rest) = kind c := rfl

private theorem startsWith_append {kind : Char → Bool} {text : List Char}
    (starts : startsWith kind text) (rest : List Char) : startsWith kind (text ++ rest) = true := by
  cases text with
  | nil => simp at starts
  | cons c text => simpa using starts

def wordAt (cs : List Char) : String := String.ofList (cs.takeWhile isWordChar)

def afterWord (cs : List Char) : List Char := cs.dropWhile isWordChar

theorem takeWhile_eq_nil_of_startsWith {kind : Char → Bool} {cs : List Char}
    (other : startsWith kind cs = false) : cs.takeWhile kind = [] := by
  cases cs with
  | nil => rfl
  | cons c rest => simpa using other

theorem dropWhile_eq_self_of_startsWith {kind : Char → Bool} {cs : List Char}
    (other : startsWith kind cs = false) : cs.dropWhile kind = cs := by
  cases cs with
  | nil => rfl
  | cons c rest => simpa using other

/-- A word ends where no character of a word follows. -/
theorem wordAt_append {word : String} {rest : List Char}
    (spelled : word.toList.all isWordChar = true) (other : startsWith isWordChar rest = false) :
    wordAt (word.toList ++ rest) = word := by
  rw [wordAt, List.takeWhile_append_of_pos (List.all_eq_true.1 spelled),
    takeWhile_eq_nil_of_startsWith other, List.append_nil, String.ofList_toList]

theorem afterWord_append {word : String} {rest : List Char}
    (spelled : word.toList.all isWordChar = true) (other : startsWith isWordChar rest = false) :
    afterWord (word.toList ++ rest) = rest := by
  rw [afterWord, List.dropWhile_append_of_pos (List.all_eq_true.1 spelled),
    dropWhile_eq_self_of_startsWith other]

theorem isIdentifier_all {name : String} (named : isIdentifier name = true) :
    name.toList.all isWordChar = true := by
  simp only [isIdentifier, Bool.and_eq_true] at named
  exact named.1.1

theorem isIdentifier_not_reserved {name : String} (named : isIdentifier name = true) :
    name ∉ reserved := by
  simp only [isIdentifier, Bool.and_eq_true, Bool.not_eq_true', List.contains_eq_mem,
    decide_eq_false_iff_not] at named
  exact named.2

/-- An identifier starts with a character of words that is no digit. -/
theorem exists_cons_of_isIdentifier {name : String} (named : isIdentifier name = true) :
    ∃ c rest, name.toList = c :: rest ∧ isWordChar c = true ∧ c.isDigit = false := by
  have spelled := isIdentifier_all named
  simp only [isIdentifier, Bool.and_eq_true] at named
  cases chars : name.toList with
  | nil => simp [chars] at named
  | cons c rest =>
    rw [chars] at spelled named
    simp at spelled named
    exact ⟨c, rest, rfl, spelled.1, by simpa using named.1.2⟩

/-! ### Types -/

def isTypeChar (c : Char) : Bool := isWordChar c || c == '.'

/-- The depth in brackets after a character of a type. There is none after a character that
cannot stand in a type outside brackets. -/
def depthAfter (depth : Nat) (c : Char) : Option Nat :=
  if c = '<' then some (depth + 1)
  else if depth = 0 then if isTypeChar c then some 0 else none
  else some (if c = '>' then depth - 1 else depth)

/-- Whether all brackets are closed at the end of a text that starts at the given depth. -/
def isBalanced (depth : Nat) : List Char → Bool
  | [] => depth == 0
  | c :: rest => (depthAfter depth c).any (isBalanced · rest)

/-- Type names are words with points between them and arguments in balanced brackets. What
stands in the brackets does not matter. -/
def isTypeName (name : String) : Bool := !name.isEmpty && isBalanced 0 name.toList

/-- The type name at the start of a text, without an annotation, and the text after it. -/
def scanType (depth : Nat) : List Char → List Char × List Char
  | [] => ([], [])
  | c :: rest =>
    match depthAfter depth c with
    | some depth => (c :: (scanType depth rest).1, (scanType depth rest).2)
    | none => ([], c :: rest)

/-- The type at the start of a text, with its annotation, and the text after it. -/
def typeAt (cs : List Char) : String × List Char :=
  let found := scanType 0 cs
  if startsWith (· == '?') found.2 then (String.ofList (found.1 ++ ['?']), found.2.tail)
  else (String.ofList found.1, found.2)

def extendsType (c : Char) : Bool := (depthAfter 0 c).isSome

private theorem scanType_append {depth : Nat} {name rest : List Char}
    (balanced : isBalanced depth name) (ended : startsWith extendsType rest = false) :
    scanType depth (name ++ rest) = (name, rest) := by
  induction name generalizing depth with
  | nil =>
    obtain rfl : depth = 0 := by simpa [isBalanced] using balanced
    cases rest with
    | nil => rfl
    | cons c rest =>
      have stops : depthAfter 0 c = none := by simpa [extendsType] using ended
      simp [scanType, stops]
  | cons c name inductionHypothesis =>
    obtain ⟨inner, step, balanced⟩ := (Option.any_eq_true _ _).1 balanced
    simp [scanType, step, inductionHypothesis balanced]

theorem display_eq (type : TypeRef) (context : NullableContext) :
    type.display context = type.name ∨ type.display context = type.name ++ "?" :=
  (ite_eq_or_eq _ _ _).symm

/-- A written type is read back with its annotation, up to where it ends. -/
theorem typeAt_display {type : TypeRef} {rest : List Char} (context : NullableContext)
    (named : isTypeName type.name = true) (ended : startsWith extendsType rest = false)
    (bare : startsWith (· == '?') rest = false) :
    typeAt ((type.display context).toList ++ rest) = (type.display context, rest) := by
  have balanced : isBalanced 0 type.name.toList = true := by
    simp only [isTypeName, Bool.and_eq_true] at named
    exact named.2
  rcases display_eq type context with shown | shown
  · simp [shown, typeAt, scanType_append balanced ended, bare]
  · have scanned : scanType 0 (type.name.toList ++ '?' :: rest) = (type.name.toList, '?' :: rest) :=
      scanType_append balanced rfl
    simp [shown, typeAt, scanned, String.ofList_append]

/-- A null with its type, after an opening parenthesis. -/
def castType? (cs : List Char) : Option (String × List Char) :=
  (mark? ")null" (typeAt cs).2).map fun after => ((typeAt cs).1, after.2)

/-- A character after which no null with its type can be found. -/
def stopsCast (c : Char) : Bool := !extendsType c && c != '?' && c != ')'

/-- A text that no null with its type starts in, unless one starts right after the text. -/
def NeverCast (text : List Char) : Prop :=
  ∀ tail, castType? tail = none → castType? (text ++ tail) = none

private theorem castType?_of_stops {cs : List Char} (stops : startsWith stopsCast cs = true) :
    castType? cs = none := by
  cases cs with
  | nil => exact absurd stops Bool.false_ne_true
  | cons c rest =>
    simp only [startsWith_cons, stopsCast, Bool.and_eq_true, Bool.not_eq_true', bne_iff_ne] at stops
    obtain ⟨⟨stops, notAnnotation⟩, notClosing⟩ := stops
    have step : depthAfter 0 c = none := by simpa [extendsType] using stops
    have typeEq : typeAt (c :: rest) = ("", c :: rest) := by
      simp [typeAt, scanType, step, notAnnotation]
    simp [castType?, mark?, typeEq, without?, notClosing.symm]

private theorem castType?_cons_of_isTypeChar {c : Char} {rest : List Char}
    (extend : isTypeChar c = true)
    (fails : castType? rest = none) : castType? (c :: rest) = none := by
  have step : depthAfter 0 c = some 0 := by
    have : c ≠ '<' := by rintro rfl; exact absurd extend (by decide)
    simp [depthAfter, this, extend]
  have typeEq : (typeAt (c :: rest)).2 = (typeAt rest).2 := by
    simp only [typeAt, scanType, step]
    split <;> rfl
  simpa [castType?, typeEq] using fails

theorem NeverCast.of_stops {text : List Char} (stops : startsWith stopsCast text = true) :
    NeverCast text :=
  fun tail _ => castType?_of_stops (startsWith_append stops tail)

/-- Where no cast starts in either of two texts, none starts in both together. -/
theorem NeverCast.append {left right : List Char} (leftNever : NeverCast left)
    (rightNever : NeverCast right) : NeverCast (left ++ right) := by
  intro tail fails
  rw [List.append_assoc]
  exact leftNever _ (rightNever tail fails)

/-- No cast starts in a text of characters that stand in types or end the search for one. -/
theorem NeverCast.of_all {text : List Char}
    (plain : text.all (fun c => isTypeChar c || stopsCast c) = true) : NeverCast text := by
  intro tail fails
  induction text with
  | nil => exact fails
  | cons c text inductionHypothesis =>
    rw [List.all_cons, Bool.and_eq_true, Bool.or_eq_true] at plain
    rcases plain.1 with extend | stops
    · exact castType?_cons_of_isTypeChar extend (inductionHypothesis plain.2)
    · exact castType?_of_stops stops

theorem NeverCast.optional (text : List Char) : NeverCast ('?' :: '.' :: text) := fun _ _ => rfl

/-! ### Numerals -/

def isNumeralChar (c : Char) : Bool := c.isDigit || c == 'e' || c == '-'

/-- Numerals consist of digits, signs and exponent marks, and points that a digit follows. -/
def isNumeral : List Char → Bool
  | [] => true
  | c :: rest =>
    (isNumeralChar c || (c == '.' && startsWith Char.isDigit rest)) && isNumeral rest

def extendsNumeral : List Char → Bool
  | [] => false
  | c :: rest => isNumeralChar c || (c == '.' && startsWith Char.isDigit rest)

/-- The numeral at the start of a text, and the text after it. -/
def scanNumeral : List Char → List Char × List Char
  | [] => ([], [])
  | c :: rest =>
    if extendsNumeral (c :: rest) then (c :: (scanNumeral rest).1, (scanNumeral rest).2)
    else ([], c :: rest)

private theorem isNumeral_cons (c : Char) (rest : List Char) :
    isNumeral (c :: rest) = (extendsNumeral (c :: rest) && isNumeral rest) := rfl

private theorem extendsNumeral_append {text : List Char} (extend : extendsNumeral text = true)
    (rest : List Char) : extendsNumeral (text ++ rest) = true := by
  cases text with
  | nil => exact absurd extend Bool.false_ne_true
  | cons c text =>
    simp only [List.cons_append, extendsNumeral, Bool.or_eq_true, Bool.and_eq_true] at extend ⊢
    exact extend.imp_right fun point => ⟨point.1, startsWith_append point.2 rest⟩

/-- A numeral is scanned as a whole, up to where it ends. -/
theorem scanNumeral_append {numeral rest : List Char} (written : isNumeral numeral = true)
    (ended : extendsNumeral rest = false) : scanNumeral (numeral ++ rest) = (numeral, rest) := by
  induction numeral with
  | nil =>
    cases rest with
    | nil => rfl
    | cons c rest => simp [scanNumeral, ended]
  | cons c numeral inductionHypothesis =>
    rw [isNumeral_cons, Bool.and_eq_true] at written
    have goes : extendsNumeral (c :: (numeral ++ rest)) = true :=
      extendsNumeral_append written.1 rest
    simp [scanNumeral, goes, inductionHypothesis written.2]

theorem isNumeral_append {left right : List Char} (leftWritten : isNumeral left = true)
    (rightWritten : isNumeral right = true) : isNumeral (left ++ right) = true := by
  induction left with
  | nil => exact rightWritten
  | cons c left inductionHypothesis =>
    rw [isNumeral_cons, Bool.and_eq_true] at leftWritten
    rw [List.cons_append, isNumeral_cons, Bool.and_eq_true]
    exact ⟨extendsNumeral_append leftWritten.1 right, inductionHypothesis leftWritten.2⟩

theorem isNumeral_of_digits {digits : List Char} (all : ∀ c ∈ digits, c.isDigit = true) :
    isNumeral digits = true := by
  induction digits with
  | nil => rfl
  | cons c digits inductionHypothesis =>
    simp [isNumeral, isNumeralChar, all c List.mem_cons_self,
      inductionHypothesis fun c listed => all c (List.mem_cons_of_mem _ listed)]

/-- A numeral consists of its own characters and points. -/
theorem mem_numeral {numeral : List Char} {c : Char} (written : isNumeral numeral = true)
    (listed : c ∈ numeral) : isNumeralChar c = true ∨ c = '.' := by
  induction numeral with
  | nil => simp at listed
  | cons first numeral inductionHypothesis =>
    simp only [isNumeral, Bool.and_eq_true, Bool.or_eq_true, beq_iff_eq] at written
    rcases List.mem_cons.1 listed with rfl | listed
    · exact written.1.imp_right And.left
    · exact inductionHypothesis written.2 listed

/-! ### Quoted strings -/

def hexDigit? (c : Char) : Option Nat :=
  if c.isDigit then some (c.toNat - '0'.toNat)
  else if 'a' ≤ c ∧ c ≤ 'f' then some (c.toNat - 'a'.toNat + 10)
  else if 'A' ≤ c ∧ c ≤ 'F' then some (c.toNat - 'A'.toNat + 10)
  else none

/-- The character with a code of four hexadecimal digits. -/
def charOfCode? (digits : List Char) : Option Char := do
  let values ← digits.mapM hexDigit?
  some (Char.ofNat (values.foldl (fun code value => 16 * code + value) 0))

/-- The character that a mark after a backslash stands for. -/
def charOfMark? (mark : Char) : Option Char :=
  if mark = '"' ∨ mark = '\\' then some mark
  else if mark = 'n' then some '\n'
  else if mark = 'r' then some '\r'
  else if mark = 't' then some '\t'
  else if mark = '0' then some '\x00'
  else none

/-- The contents of a quoted string, up to its closing quote, and the text after that. -/
def unquote? : List Char → Option (List Char × List Char)
  | [] => none
  | '\\' :: 'u' :: first :: second :: third :: fourth :: rest =>
    (charOfCode? [first, second, third, fourth]).bind fun c =>
      (unquote? rest).map (Prod.map (c :: ·) id)
  | '\\' :: mark :: rest =>
    (charOfMark? mark).bind fun c => (unquote? rest).map (Prod.map (c :: ·) id)
  | c :: rest =>
    if c = '"' then some ([], rest) else (unquote? rest).map (Prod.map (c :: ·) id)

private theorem charOfCode?_hexCode : ∀ code < 160,
    (hexCode code).length = 4 ∧ charOfCode? (hexCode code) = some (Char.ofNat code) := by
  decide +kernel

private theorem unquote?_mark {mark c : Char} (rest : List Char) (notCode : mark ≠ 'u')
    (meaning : charOfMark? mark = some c) :
    unquote? ('\\' :: mark :: rest) = (unquote? rest).map (Prod.map (c :: ·) id) := by
  rw [unquote?, meaning, Option.bind_some]
  simp [notCode]

private theorem unquote?_code (code : Nat) (rest : List Char) (small : code < 160) :
    unquote? ('\\' :: 'u' :: (hexCode code ++ rest)) =
      (unquote? rest).map (Prod.map (Char.ofNat code :: ·) id) := by
  obtain ⟨four, meaning⟩ := charOfCode?_hexCode code small
  match hexCode code, four, meaning with
  | [first, second, third, fourth], _, meaning =>
    rw [List.cons_append, List.cons_append, List.cons_append, List.cons_append, List.nil_append,
      unquote?, meaning, Option.bind_some]

/-- The three ways to write a character inside quotes: with a mark of its own, by its code, or as
it is. -/
theorem escapeChar_cases (c : Char) :
    (∃ mark, mark ≠ 'u' ∧ charOfMark? mark = some c ∧ escapeChar c = ['\\', mark]) ∨
      (c.toNat < 160 ∧ escapeChar c = '\\' :: 'u' :: hexCode c.toNat) ∨
      (c ≠ '"' ∧ c ≠ '\\' ∧ isControl c = false ∧ escapeChar c = [c]) := by
  unfold escapeChar
  -- The five characters with a mark of their own come first.
  iterate 5
    split
    case isTrue same => subst same; exact .inl ⟨_, by decide, rfl, rfl⟩
  split
  case isTrue zero =>
    obtain rfl : c = '\x00' := Char.toNat_inj.1 zero
    exact .inl ⟨_, by decide, rfl, rfl⟩
  split
  case isTrue control =>
    have small : c.toNat < 160 := by
      simp only [isControl, Bool.or_eq_true, Bool.and_eq_true, decide_eq_true_eq] at control
      omega
    exact .inr (.inl ⟨small, rfl⟩)
  case isFalse notQuote notBackslash _ _ _ _ notControl =>
    exact .inr (.inr ⟨notQuote, notBackslash, Bool.eq_false_iff.2 notControl, rfl⟩)

/-- Each character comes back from its escaped form. -/
theorem unquote?_escapeChar (c : Char) (rest : List Char) :
    unquote? (escapeChar c ++ rest) = (unquote? rest).map (Prod.map (c :: ·) id) := by
  rcases escapeChar_cases c with ⟨mark, notCode, meaning, written⟩ | ⟨small, written⟩ |
    ⟨notQuote, notBackslash, -, written⟩
  · rw [written]
    exact unquote?_mark rest notCode meaning
  · have codeEq := unquote?_code c.toNat rest small
    rw [Char.ofNat_toNat] at codeEq
    rw [written]
    exact codeEq
  · rw [written, List.singleton_append, unquote?, if_neg notQuote]
    all_goals simp [notBackslash]

/-- Quoting a string and reading it up to the closing quote gives the string back. -/
theorem unquote?_stringLiteral (contents rest : List Char) :
    unquote? (contents.flatMap escapeChar ++ '"' :: rest) = some (contents, rest) := by
  induction contents with
  | nil =>
    rw [List.flatMap_nil, List.nil_append, unquote?, if_pos rfl]
    all_goals simp
  | cons c contents inductionHypothesis =>
    rw [List.flatMap_cons, List.append_assoc, unquote?_escapeChar, inductionHypothesis]
    rfl

end Source

end MappingForms
