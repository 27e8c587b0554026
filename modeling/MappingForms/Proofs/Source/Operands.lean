import MappingForms.Proofs.Source.Reader
import MappingForms.Proofs.Source.Text

/-!
Contract: how the parts of an expression's text are read.

Owns: what may follow an expression, and what the reader finds at the start of names, literals,
constructions, links and the lines of a block.

The reader finds the same whatever comes later, as long as the text right after a part cannot
extend it.
-/

set_option autoImplicit false

namespace MappingForms

namespace Source

open Document

/-! ### What may follow an expression -/

/-- A text that cannot extend the last word, numeral or construction before it. -/
structure Boundary (rest : List Char) : Prop where
  word : startsWith isWordChar rest = false
  numeral : extendsNumeral rest = false
  block : onNewLine? "\x7b" rest = none
  arrow : mark? " => " rest = none

/-- A text whose first link, if there is one, binds at most as tightly as given. -/
def Admits (level : Nat) (rest : List Char) : Prop :=
  ∀ link after, link? rest = some (link, after) → link.precedence.level ≤ level

/-- The bound on the first link may be raised. -/
theorem Admits.mono {lower upper : Nat} {rest : List Char} (admits : Admits lower rest)
    (less : lower ≤ upper) : Admits upper rest :=
  fun link after linkEq => (admits link after linkEq).trans less

theorem Admits.of_link {level : Nat} {rest after : List Char} {link : Link}
    (linkEq : link? rest = some (link, after)) (binds : link.precedence.level ≤ level) :
    Admits level rest := by
  intro other tail otherEq
  obtain ⟨rfl, -⟩ : link = other ∧ after = tail := by simpa [linkEq] using otherEq
  exact binds

theorem Admits.of_none {rest : List Char} (none : link? rest = none) (level : Nat) :
    Admits level rest :=
  fun _ _ linkEq => absurd (none.symm.trans linkEq) (by simp)

theorem Admits.any (rest : List Char) : Admits 10 rest := by
  intro link after _
  cases link with
  | binary op => cases op <;> decide
  | access => exact Nat.le_refl 10
  | _ => decide

variable {decode : List Char → Option Literal}

/-- Links that bind too loosely for a place are left for later. -/
theorem readLinks_of_admits {level : Nat} {least : Precedence} {rest : List Char} (left : Surface)
    (admits : Admits level rest) (less : level < least.level) :
    readLinks decode least left rest = some (left, rest) :=
  readLinks_of_stop left fun link after linkEq => (admits link after linkEq).trans_lt less

theorem length_lt_append {text : List Char} (nonempty : text ≠ []) (rest : List Char) :
    rest.length < (text ++ rest).length := by
  rw [List.length_append]
  exact Nat.lt_add_of_pos_left (List.length_pos_of_ne_nil nonempty)

/-! ### Names and literals -/

/-- A word is the head that it spells. -/
theorem head?_word {word : String} {rest : List Char} (spelled : word.toList.all isWordChar = true)
    (starts : startsWith (fun c => isWordChar c && !c.isDigit) word.toList = true)
    (other : startsWith isWordChar rest = false) :
    head? decode (word.toList ++ rest) = wordHead? word rest := by
  have wordEq := wordAt_append spelled other
  have afterEq := afterWord_append spelled other
  cases charsEq : word.toList with
  | nil => simp [charsEq] at starts
  | cons c tail =>
    rw [charsEq] at wordEq afterEq starts
    simp only [startsWith_cons, Bool.and_eq_true, Bool.not_eq_true'] at starts
    obtain ⟨wordChar, notDigit⟩ := starts
    have notParenthesis : c ≠ '(' := by rintro rfl; exact absurd wordChar (by decide)
    have notQuote : c ≠ '"' := by rintro rfl; exact absurd wordChar (by decide)
    have notSign : c ≠ '-' := by rintro rfl; exact absurd wordChar (by decide)
    rw [List.cons_append] at wordEq afterEq ⊢
    simp [head?, notParenthesis, notQuote, notSign, notDigit, wordEq, afterEq]

private theorem head?_identifier {name : String} {rest : List Char}
    (named : isIdentifier name = true) (other : startsWith isWordChar rest = false) :
    head? decode (name.toList ++ rest) = some (nameHead name rest) := by
  obtain ⟨c, tail, charsEq, word, notDigit⟩ := exists_cons_of_isIdentifier named
  have notReserved := isIdentifier_not_reserved named
  simp only [reserved, List.mem_cons, List.not_mem_nil, or_false, not_or] at notReserved
  have nonempty : name ≠ "" := by
    rintro rfl
    simp at charsEq
  rw [head?_word (isIdentifier_all named) (by simp [charsEq, word, notDigit]) other]
  simp [wordHead?, notReserved, nonempty]

/-- A name before a boundary is a head of its own. -/
theorem head?_name {name : String} {rest : List Char} (named : isIdentifier name = true)
    (boundary : Boundary rest) : head? decode (name.toList ++ rest) = some (.name name, rest) := by
  rw [head?_identifier named boundary.word, nameHead, boundary.arrow]

theorem head?_lambda {name : String} (named : isIdentifier name = true) (body : List Char) :
    head? decode (name.toList ++ (" => ".toList ++ body)) = some (.lambda name, body) :=
  head?_identifier named rfl

theorem head?_throw (rest : List Char) :
    head? decode ("throw ".toList ++ rest) = some (.raise, rest) := by
  have headEq : head? decode ("throw".toList ++ (' ' :: rest)) = wordHead? "throw" (' ' :: rest) :=
    head?_word rfl rfl rfl
  exact headEq.trans rfl

private theorem head?_numeral (literal : Literal) {numeral : Numeral} {rest : List Char}
    (decodes : Numeral.Decodes decode) (numeralEq : Numeral.ofLiteral? literal = some numeral)
    (ended : extendsNumeral rest = false) :
    head? decode (numeral.text ++ rest) = some (.literal literal, rest) := by
  have decodeEq := decodes literal numeral numeralEq
  have scanEq := scanNumeral_append numeral.isNumeral_text ended
  have starts := numeral.startsWith_text
  cases textEq : numeral.text with
  | nil => simp [textEq] at starts
  | cons c tail =>
    rw [textEq] at decodeEq scanEq starts
    rw [startsWith_cons] at starts
    have notParenthesis : c ≠ '(' := by rintro rfl; exact absurd starts (by decide)
    have notQuote : c ≠ '"' := by rintro rfl; exact absurd starts (by decide)
    rw [List.cons_append] at scanEq ⊢
    simp [head?, notParenthesis, notQuote, starts, scanEq, decodeEq]

private theorem head?_string (value : String) (rest : List Char) :
    head? decode ((stringLiteral value).toList ++ rest) =
      some (.literal (.string value), rest) := by
  have unquoteEq := unquote?_stringLiteral value.toList rest
  simp [stringLiteral, head?, unquoteEq]

private theorem head?_typedNull {type : TypeRef} {context : NullableContext} {indent : Int64}
    (named : isTypeName type.name = true) (rest : List Char) :
    head? decode ((literal context .typedNull type).plain indent ++ rest) =
      some (.typedNull (type.display context), rest) := by
  have textEq : (literal context .typedNull type).plain indent ++ rest =
      '(' :: ((type.display context).toList ++ (")null".toList ++ rest)) := by
    simp [literal]
  have typeEq : typeAt ((type.display context).toList ++ (")null".toList ++ rest)) = _ :=
    typeAt_display context named rfl rfl
  have castEq : castType? ((type.display context).toList ++ (")null".toList ++ rest)) =
      some (type.display context, rest) := by
    rw [castType?, typeEq]
    rfl
  rw [textEq, head?, if_pos rfl, castEq]

/-- A double that is written as a member of its type. -/
theorem head?_special (member : String) {rest : List Char}
    (spelled : member.toList.all isWordChar = true) (other : startsWith isWordChar rest = false) :
    head? decode ("double.".toList ++ (member.toList ++ rest)) =
      some (.literal (.float (specialNumber member)), rest) := by
  have headEq : head? decode ("double".toList ++ ('.' :: (member.toList ++ rest))) =
      wordHead? "double" ('.' :: (member.toList ++ rest)) := head?_word rfl rfl rfl
  have wordEq := wordAt_append spelled other
  have afterEq := afterWord_append spelled other
  calc head? decode ("double.".toList ++ (member.toList ++ rest))
      = wordHead? "double" ('.' :: (member.toList ++ rest)) := headEq
    _ = some (.literal (.float (specialNumber member)), rest) := by
      simp [wordHead?, wordEq, afterEq]

private theorem head?_float {value : Binary64} {rest : List Char} (decodes : Numeral.Decodes decode)
    (boundary : Boundary rest) :
    head? decode ((floatLiteral value).toList ++ rest) =
      some (.literal (.float (if value.isNaN then .nan else value)), rest) := by
  rcases floatLiteral_cases value with
    ⟨notNumber, textEq⟩ | ⟨rfl, textEq⟩ | ⟨rfl, textEq⟩ | ⟨number, textEq⟩
  · have split : "double.NaN".toList = "double.".toList ++ "NaN".toList := rfl
    rw [textEq, if_pos notNumber, split, List.append_assoc]
    exact head?_special "NaN" rfl boundary.word
  · have split : "double.PositiveInfinity".toList =
        "double.".toList ++ "PositiveInfinity".toList := rfl
    rw [textEq, split, List.append_assoc]
    exact head?_special "PositiveInfinity" rfl boundary.word
  · have split : "double.NegativeInfinity".toList =
        "double.".toList ++ "NegativeInfinity".toList := rfl
    rw [textEq, split, List.append_assoc]
    exact head?_special "NegativeInfinity" rfl boundary.word
  · rw [textEq, if_neg (by simp [number])]
    exact head?_numeral _ decodes rfl boundary.numeral

/-- Each literal is read back, up to the sign and payload of what is not a number. -/
theorem readOperand_ofLiteral {context : NullableContext} {value : Literal} {type : TypeRef}
    {rest : List Char} (decodes : Numeral.Decodes decode)
    (named : value = .typedNull → isTypeName type.name = true) (boundary : Boundary rest)
    (indent : Int64) :
    readOperand decode ((literal context value type).plain indent ++ rest) =
      some (.ofLiteral context value type, rest) := by
  have shorter := length_lt_append (firm_literal context value type indent).endsFirm.ne_nil rest
  cases value with
  | null => exact readOperand_atom ((head?_word rfl rfl boundary.word).trans rfl) rfl shorter
  | typedNull => exact readOperand_atom (head?_typedNull (named rfl) rest) rfl shorter
  | bool value =>
    cases value with
    | true => exact readOperand_atom ((head?_word rfl rfl boundary.word).trans rfl) rfl shorter
    | false => exact readOperand_atom ((head?_word rfl rfl boundary.word).trans rfl) rfl shorter
  | integer value =>
    have headEq := head?_numeral (.integer value) decodes rfl boundary.numeral
    rw [Numeral.text_ofInt] at headEq
    exact readOperand_atom headEq rfl shorter
  | float value => exact readOperand_atom (head?_float decodes boundary) rfl shorter
  | string value => exact readOperand_atom (head?_string value rest) rfl shorter

/-- A construction starts with its type, up to where the type ends. -/
theorem head?_new {type : TypeRef} {context : NullableContext} {rest : List Char}
    (named : isTypeName type.name = true) (ended : startsWith extendsType rest = false)
    (bare : startsWith (· == '?') rest = false) :
    head? decode (("new " ++ type.display context : String).toList ++ rest) =
      some (.construct (type.display context), rest) := by
  have typeEq := typeAt_display context named ended bare
  have headEq : head? decode ("new".toList ++ (' ' :: ((type.display context).toList ++ rest))) =
      wordHead? "new" (' ' :: ((type.display context).toList ++ rest)) := head?_word rfl rfl rfl
  have textEq : ("new " ++ type.display context : String).toList ++ rest =
      "new".toList ++ (' ' :: ((type.display context).toList ++ rest)) := by
    simp
  rw [textEq, headEq]
  simp [wordHead?, typeEq]

/-! ### Links -/

/-- An access after an operand is a link. -/
theorem link?_access {name : String} {rest : List Char} (named : isIdentifier name = true)
    (other : startsWith isWordChar rest = false) (optional : Bool) :
    link? ((accessMark optional).toList ++ (name.toList ++ rest)) =
      some (.access optional name, rest) := by
  have wordEq := wordAt_append (isIdentifier_all named) other
  have afterEq := afterWord_append (isIdentifier_all named) other
  cases optional <;> simp [accessMark, link?, wordEq, afterEq]

/-- An operator between blanks is a link. -/
theorem link?_binary (op : BinaryOp) (rest : List Char) :
    link? (" ".toList ++ (op.symbol.toList ++ (" ".toList ++ rest))) = some (.binary op, rest) := by
  cases op <;> rfl

theorem boundary_access {name : String} (named : isIdentifier name = true) (optional : Bool)
    (rest : List Char) : Boundary ((accessMark optional).toList ++ (name.toList ++ rest)) := by
  obtain ⟨c, tail, charsEq, -, notDigit⟩ := exists_cons_of_isIdentifier named
  cases optional with
  | true => exact ⟨rfl, rfl, rfl, rfl⟩
  | false =>
    refine ⟨rfl, ?_, rfl, rfl⟩
    simp [accessMark, extendsNumeral, charsEq, notDigit]
    rfl

theorem boundary_binary (op : BinaryOp) (rest : List Char) :
    Boundary (" ".toList ++ (op.symbol.toList ++ (" ".toList ++ rest))) := by
  cases op <;> exact ⟨rfl, rfl, rfl, rfl⟩

theorem boundary_closing (rest : List Char) : Boundary (')' :: rest) := ⟨rfl, rfl, rfl, rfl⟩

theorem boundary_separator (rest : List Char) : Boundary (',' :: rest) := ⟨rfl, rfl, rfl, rfl⟩

/-! ### Lines of a block -/

private theorem dropWhile_indentation {text : List Char} (count : Nat)
    (other : startsWith (· == ' ') text = false) :
    (List.replicate count ' ' ++ text).dropWhile (· == ' ') = text := by
  rw [List.dropWhile_append_of_pos (by simp), dropWhile_eq_self_of_startsWith other]

theorem onNewLine?_line (mark : String) {indent : Int64} {text : List Char}
    (other : startsWith (· == ' ') text = false) :
    onNewLine? mark (line.plain indent ++ text) = mark? mark text := by
  have dropEq := dropWhile_indentation indent.toInt.toNat other
  have breakEq : mark? "\n" (line.plain indent ++ text) =
      some ((), List.replicate indent.toInt.toNat ' ' ++ text) := rfl
  simp only [onNewLine?, breakEq, Option.bind_eq_bind, Option.bind_some, dropEq]

/-- An assignment on a line of its own is read up to its value. -/
theorem assigned?_line {member : String} {indent : Int64} (named : isIdentifier member = true)
    (value : List Char) :
    assigned? (line.plain indent ++ (member.toList ++ (" = ".toList ++ value))) =
      some (member, value) := by
  have starts : startsWith (· == ' ') (member.toList ++ (" = ".toList ++ value)) = false := by
    obtain ⟨c, tail, charsEq, word, -⟩ := exists_cons_of_isIdentifier named
    have notBlank : c ≠ ' ' := by rintro rfl; exact absurd word (by decide)
    simp [charsEq, notBlank]
  have dropEq := dropWhile_indentation indent.toInt.toNat starts
  have breakEq : mark? "\n" (line.plain indent ++ (member.toList ++ (" = ".toList ++ value))) =
      some ((), List.replicate indent.toInt.toNat ' ' ++
        (member.toList ++ (" = ".toList ++ value))) := rfl
  have wordEq : wordAt (member.toList ++ (" = ".toList ++ value)) = member :=
    wordAt_append (isIdentifier_all named) rfl
  have afterEq : afterWord (member.toList ++ (" = ".toList ++ value)) = " = ".toList ++ value :=
    afterWord_append (isIdentifier_all named) rfl
  have setEq : mark? " = " (" = ".toList ++ value) = some ((), value) := rfl
  simp only [assigned?, breakEq, Option.bind_eq_bind, Option.bind_some, dropEq, wordEq, afterEq,
    setEq]

theorem boundary_line (indent : Int64) (rest : List Char) :
    Boundary (line.plain indent ++ '\x7d' :: rest) := by
  refine ⟨rfl, rfl, ?_, rfl⟩
  rw [onNewLine?_line _ rfl]
  rfl

end Source

end MappingForms
