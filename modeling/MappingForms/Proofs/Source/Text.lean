import MappingForms.Proofs.Document
import MappingForms.Proofs.Source.Numeral
import MappingForms.Proofs.Source.Surface

/-!
Contract: the text of expressions whose names can be read back.

Owns: that rendering such an expression loses no character, that its text does not end in a
blank, and that no part of it can be taken for a null with its type.
-/

set_option autoImplicit false

namespace MappingForms

namespace Source

open Document

/-! ### Layouts by kind -/

/-- What a call writes before its arguments. -/
def calleeLayout (context : NullableContext) (target : CallableId) (style : CallStyle)
    (receiver : Option Expr) (optional : Bool) : Document :=
  match style, receiver with
  | .static, _ => target.scope ++ "." ++ target.name
  | _, some receiver =>
    .concat [parenthesized receiver .primary (expression context receiver), accessMark optional,
      target.name]
  | _, none => target.name

/-- A call is written as its callee and its actual arguments. -/
theorem expression_call (context : NullableContext) (target : CallableId) (style : CallStyle)
    (receiver : Option Expr) (arguments : List Expr) (optional : Bool) (type : TypeRef) :
    expression context (.call target style receiver arguments optional type) =
      .concat [calleeLayout context target style receiver optional,
        argumentList (operands context arguments)] := by
  cases style <;> cases receiver <;> rfl

/-- A projection before it is materialized. -/
def selectLayout (context : NullableContext) (source : Expr) (element : String)
    (transform : Expr) : Document :=
  .concat [parenthesized source .primary (expression context source), ".Select(", element, " => ",
    expression context transform, ")"]

theorem expression_materialize (context : NullableContext) (source : Expr) (element : String)
    (transform : Expr) (method : String) (type : TypeRef) :
    expression context (.projection source element transform (some method) type) =
      .concat [selectLayout context source element transform, ".", method, "()"] := rfl

/-- What a construction writes before its block. -/
def actualsLayout (context : NullableContext) (arguments : List Expr) : Document :=
  if arguments.isEmpty then .nil else argumentList (operands context arguments)

theorem expression_construct_bare (context : NullableContext) (type : TypeRef)
    (arguments : List Expr) :
    expression context (.construct type arguments []) =
      .concat [("new " ++ type.display context : String),
        argumentList (operands context arguments)] := rfl

theorem expression_construct_block (context : NullableContext) (type : TypeRef)
    (arguments : List Expr) (first : Initializer) (rest : List Initializer) :
    expression context (.construct type arguments (first :: rest)) =
      .concat [("new " ++ type.display context : String), actualsLayout context arguments,
        .block (.join (assignments context (first :: rest)) ",")] := rfl

private theorem operands_eq_map (context : NullableContext) (arguments : List Expr) :
    operands context arguments = arguments.map (operand context) := by
  induction arguments with
  | nil => rfl
  | cons first rest inductionHypothesis =>
    rw [operands, inductionHypothesis]
    rfl

theorem plain_argumentList (documents : List Document) (indent : Int64) (rest : List Char) :
    (argumentList documents).plain indent ++ rest =
      '(' :: (plainAll indent (separated ", " documents) ++ ')' :: rest) := by
  simp [argumentList, join]

def assignment (context : NullableContext) (initializer : Initializer) : Document :=
  .concat [.line, initializer.member, " = ", expression context initializer.value]

private theorem assignments_eq_map (context : NullableContext) (initializers : List Initializer) :
    assignments context initializers = initializers.map (assignment context) := by
  induction initializers with
  | nil => rfl
  | cons first rest inductionHypothesis =>
    obtain ⟨member, type, value⟩ := first
    rw [assignments, inductionHypothesis]
    rfl

/-! ### Firm ends -/

private theorem isBlank_eq_false (kind : Char → Bool) {c : Char} (space : kind ' ' = false)
    (tab : kind '\t' = false) (member : kind c = true) : isBlank c = false := by
  refine Bool.eq_false_iff.2 fun blank => ?_
  simp only [isBlank, Bool.or_eq_true, beq_iff_eq] at blank
  rcases blank with rfl | rfl
  · exact Bool.false_ne_true (space.symm.trans member)
  · exact Bool.false_ne_true (tab.symm.trans member)

theorem endsFirm_identifier {name : String} (named : isIdentifier name = true) :
    EndsFirm name.toList := by
  obtain ⟨c, rest, charsEq, -⟩ := exists_cons_of_isIdentifier named
  refine .of_forall (by simp [charsEq]) fun c listed => ?_
  exact isBlank_eq_false isWordChar rfl rfl (List.all_eq_true.1 (isIdentifier_all named) c listed)

private theorem endsFirm_numeral (numeral : Numeral) : EndsFirm numeral.text := by
  refine .of_forall ?_ fun c listed => ?_
  · simp [Numeral.text, numeral.nonempty]
  · have member := mem_numeral numeral.isNumeral_text listed
    exact isBlank_eq_false (fun c => isNumeralChar c || c == '.') rfl rfl (by simpa using member)

/-- A type name ends outside brackets or with a bracket. -/
theorem endsFirm_of_isBalanced {depth : Nat} {name : List Char} (balanced : isBalanced depth name)
    (nonempty : name ≠ []) : EndsFirm name := by
  induction name generalizing depth with
  | nil => exact absurd rfl nonempty
  | cons c name inductionHypothesis =>
    obtain ⟨inner, step, balanced⟩ := (Option.any_eq_true _ _).1 balanced
    by_cases last : name = []
    · subst last
      have closed : inner = 0 := by simpa [isBalanced] using balanced
      have closing : (isTypeChar c || c == '>') = true := by
        unfold depthAfter at step
        split_ifs at step <;> simp_all
      exact ⟨c, rfl, isBlank_eq_false (fun c => isTypeChar c || c == '>') rfl rfl closing⟩
    · exact (inductionHypothesis balanced last).append_left [c]

private theorem endsFirm_display {type : TypeRef} (context : NullableContext)
    (named : isTypeName type.name = true) : EndsFirm (type.display context).toList := by
  simp only [isTypeName, Bool.and_eq_true, Bool.not_eq_true'] at named
  rcases display_eq type context with shown | shown
  · rw [shown]
    exact endsFirm_of_isBalanced named.2 (by simpa [String.isEmpty_iff] using named.1)
  · rw [shown, String.toList_append]
    exact EndsFirm.append_left ⟨'?', rfl, rfl⟩ _

/-- The text of a double, with or without a numeral. -/
theorem floatLiteral_cases (value : Binary64) :
    (value.isNaN = true ∧ floatLiteral value = "double.NaN") ∨
    (value = .infinity ∧ floatLiteral value = "double.PositiveInfinity") ∨
    (value = Binary64.neg .infinity ∧ floatLiteral value = "double.NegativeInfinity") ∨
    (value.isNaN = false ∧ (floatLiteral value).toList = (Numeral.ofNumber value).text) := by
  unfold floatLiteral
  split
  next notNumber => exact .inl ⟨notNumber, rfl⟩
  split
  next infinite =>
    have magnitude : value.magnitudeBits = Binary64.infinityBits := eq_of_beq infinite
    split
    next negative =>
      exact .inr (.inr (.inl ⟨Binary64.eq_of_magnitude negative magnitude, rfl⟩))
    next positive =>
      have sign : value.isNegative = false := Bool.eq_false_iff.2 positive
      exact .inr (.inl ⟨Binary64.eq_of_magnitude sign magnitude, rfl⟩)
  next notNumber _ =>
    exact .inr (.inr (.inr ⟨Bool.eq_false_iff.2 notNumber, (Numeral.text_ofNumber value).symm⟩))

private theorem endsFirm_floatLiteral (value : Binary64) :
    EndsFirm (floatLiteral value).toList := by
  rcases floatLiteral_cases value with ⟨-, textEq⟩ | ⟨-, textEq⟩ | ⟨-, textEq⟩ | ⟨-, textEq⟩
  · rw [textEq]
    exact ⟨'N', by decide, rfl⟩
  · rw [textEq]
    exact ⟨'y', by decide, rfl⟩
  · rw [textEq]
    exact ⟨'y', by decide, rfl⟩
  · rw [textEq]
    exact endsFirm_numeral _

/-- A literal is rendered without loss and ends in no blank. -/
theorem firm_literal (context : NullableContext) (value : Literal) (type : TypeRef)
    (indent : Int64) : Firm indent (literal context value type) := by
  cases value with
  | null => exact .text ⟨'l', by decide, rfl⟩ indent
  | typedNull =>
    have nullFirm : EndsFirm ")null".toList := ⟨'l', by decide, rfl⟩
    refine ⟨.append (.append ?_ ?_) ?_, ?_⟩
    · exact verbatim_text _ _
    · exact verbatim_text _ _
    · exact verbatim_text _ _
    · rw [literal, plain_append]
      exact nullFirm.append_left _
  | bool value => cases value <;> exact .text ⟨'e', by decide, rfl⟩ indent
  | integer value =>
    have firm := endsFirm_numeral (Numeral.ofInt value.toInt)
    rw [Numeral.text_ofInt] at firm
    exact .text firm indent
  | float value => exact .text (endsFirm_floatLiteral value) indent
  | string value =>
    refine .text ?_ indent
    rw [stringLiteral, String.toList_ofList]
    exact EndsFirm.append_left ⟨'"', rfl, rfl⟩ _

theorem firm_parenthesized {indent : Int64} {layout : Document} (firm : Firm indent layout)
    (expr : Expr) (least : Precedence) : Firm indent (parenthesized expr least layout) := by
  unfold parenthesized
  split
  · refine .concat ?_ rfl ⟨')', rfl, rfl⟩
    simp [firm.verbatim]
  · exact firm

theorem firm_branched {indent : Int64} {layout : Document} (firm : Firm indent layout)
    (expr : Expr) (least : Precedence) : Firm indent (branched expr least layout) := by
  unfold branched
  split
  · exact firm
  · exact firm_parenthesized firm expr least

private theorem firm_argumentList {context : NullableContext} {arguments : List Expr}
    {indent : Int64} (firm : ∀ argument ∈ arguments, Firm indent (expression context argument)) :
    Firm indent (argumentList (operands context arguments)) := by
  have inside : Verbatim indent (.join (operands context arguments) ", ") := by
    refine .join (fun document listed => ?_) (verbatim_text _ _)
    rw [operands_eq_map] at listed
    obtain ⟨argument, member, rfl⟩ := List.mem_map.1 listed
    exact (firm_parenthesized (firm argument member) argument .conditional).verbatim
  refine .concat ?_ rfl ⟨')', rfl, rfl⟩
  simp [inside]

/-- The break before a block follows the type or the arguments of a construction. -/
theorem firm_construct {context : NullableContext} {type : TypeRef} {indent : Int64}
    {arguments : List Expr} {initializers : List Initializer}
    (named : isTypeName type.name = true)
    (actuals : Firm indent (argumentList (operands context arguments)))
    (values : ∀ initializer ∈ initializers,
      Firm (indent + indentWidth) (expression context initializer.value)) :
    Firm indent (expression context (.construct type arguments initializers)) := by
  have head : Firm indent ("new " ++ type.display context : String) := by
    refine .text ?_ indent
    rw [String.toList_append]
    exact (endsFirm_display context named).append_left _
  cases initializers with
  | nil =>
    rw [expression_construct_bare]
    refine .concat ?_ rfl actuals.endsFirm
    simp [actuals.verbatim]
  | cons first rest =>
    have actualsVerbatim : Verbatim indent (actualsLayout context arguments) := by
      unfold actualsLayout
      split
      · exact verbatim_nil indent
      · exact actuals.verbatim
    have frontFirm : EndsFirm (plainAll indent
        [("new " ++ type.display context : String), actualsLayout context arguments]) := by
      unfold actualsLayout
      split
      · simpa using head.endsFirm
      · exact endsFirm_plainAll rfl actuals.endsFirm
    have lines : VerbatimAfter (indent + indentWidth)
        (separated "," (assignments context (first :: rest))) := by
      refine verbatimAfter_lines ⟨',', rfl, rfl⟩ fun document listed => ?_
      rw [assignments_eq_map] at listed
      obtain ⟨initializer, member, rfl⟩ := List.mem_map.1 listed
      refine verbatimAfter_line ?_
      simp [(values initializer member).verbatim]
    have linesFirm : EndsFirm (plainAll (indent + indentWidth)
        (separated "," (assignments context (first :: rest)))) := by
      obtain ⟨last, lastEq⟩ : ∃ last, (first :: rest).getLast? = some last :=
        ⟨_, List.getLast?_cons⟩
      have member : last ∈ first :: rest := List.mem_of_getLast? lastEq
      have lastLine : (separated "," (assignments context (first :: rest))).getLast? =
          some (assignment context last) := by
        rw [getLast?_separated, assignments_eq_map, List.getLast?_map, lastEq]
        rfl
      exact endsFirm_plainAll lastLine (endsFirm_plainAll rfl (values last member).endsFirm)
    rw [expression_construct_block]
    refine Firm.block ?_ frontFirm lines linesFirm
    simp [actualsVerbatim]

/-- Rendering an expression loses nothing, and its text does not end in a blank. -/
theorem firm_expression (context : NullableContext) {expr : Expr}
    (named : expr.isWellNamed = true) : ∀ indent, Firm indent (expression context expr) := by
  refine Expr.induction_on_wellNamed (motive := fun expr =>
    ∀ indent, Firm indent (expression context expr)) ?_ named
  intro expr spelled inductionHypothesis indent
  cases expr with
  | literal value type => exact firm_literal context value type indent
  | parameter name type => exact .text (endsFirm_identifier spelled) indent
  | member receiver name optional type =>
    have receiverFirm := inductionHypothesis receiver (by simp [Expr.children]) indent
    refine .concat ?_ rfl (endsFirm_identifier spelled)
    simp [(firm_parenthesized receiverFirm receiver .primary).verbatim]
  | call target style receiver arguments optional type =>
    have argumentsFirm := firm_argumentList fun argument listed =>
      inductionHypothesis argument (List.mem_append_right _ listed) indent
    have receiverFirm := fun inner listed =>
      inductionHypothesis inner (List.mem_append_left _ listed) indent
    have calleeVerbatim : Verbatim indent
        (calleeLayout context target style receiver optional) := by
      have prefixed (inner : Expr) (listed : inner ∈ receiver.toList) :
          Verbatim indent (.concat [parenthesized inner .primary (expression context inner),
            accessMark optional, target.name]) := by
        refine .concat ?_
        simp [(firm_parenthesized (receiverFirm inner listed) inner .primary).verbatim]
      cases style <;> cases receiver <;> simp_all [calleeLayout]
    rw [expression_call]
    refine .concat ?_ rfl argumentsFirm.endsFirm
    simp [calleeVerbatim, argumentsFirm.verbatim]
  | construct type arguments initializers =>
    simp only [Expr.isSpelled, Bool.and_eq_true] at spelled
    exact firm_construct spelled.1
      (firm_argumentList fun argument listed =>
        inductionHypothesis argument (List.mem_append_left _ listed) indent)
      (fun initializer listed => inductionHypothesis initializer.value
        (List.mem_append_right _ (List.mem_map_of_mem listed)) (indent + indentWidth))
  | conditional condition whenTrue whenFalse type =>
    have conditionFirm := inductionHypothesis condition (by simp [Expr.children]) indent
    have trueFirm := inductionHypothesis whenTrue (by simp [Expr.children]) indent
    have falseFirm := inductionHypothesis whenFalse (by simp [Expr.children]) indent
    refine .concat ?_ rfl (firm_branched falseFirm _ _).endsFirm
    simp [(firm_parenthesized conditionFirm _ _).verbatim, (firm_branched trueFirm _ _).verbatim,
      (firm_branched falseFirm _ _).verbatim]
  | coalesce left right type =>
    have leftFirm := inductionHypothesis left (by simp [Expr.children]) indent
    have rightFirm := inductionHypothesis right (by simp [Expr.children]) indent
    refine .concat ?_ rfl (firm_branched rightFirm _ _).endsFirm
    simp [(firm_parenthesized leftFirm _ _).verbatim, (firm_branched rightFirm _ _).verbatim]
  | binary op left right type =>
    have leftFirm := inductionHypothesis left (by simp [Expr.children]) indent
    have rightFirm := inductionHypothesis right (by simp [Expr.children]) indent
    refine .concat ?_ rfl (firm_parenthesized rightFirm _ _).endsFirm
    simp [(firm_parenthesized leftFirm _ _).verbatim, (firm_parenthesized rightFirm _ _).verbatim]
  | raise exception type =>
    have exceptionFirm := inductionHypothesis exception (by simp [Expr.children]) indent
    refine .concat ?_ rfl (firm_parenthesized exceptionFirm _ _).endsFirm
    simp [(firm_parenthesized exceptionFirm _ _).verbatim]
  | projection source element transform materialize type =>
    have sourceFirm := inductionHypothesis source (by simp [Expr.children]) indent
    have transformFirm := inductionHypothesis transform (by simp [Expr.children]) indent
    have selectFirm : Firm indent (selectLayout context source element transform) := by
      refine .concat ?_ rfl ⟨')', rfl, rfl⟩
      simp [(firm_parenthesized sourceFirm _ _).verbatim, transformFirm.verbatim]
    cases materialize with
    | none => exact selectFirm
    | some method =>
      rw [expression_materialize]
      refine .concat ?_ rfl ⟨')', rfl, rfl⟩
      simp [selectFirm.verbatim]
  | guarded receiver body type =>
    have receiverFirm := inductionHypothesis receiver (by simp [Expr.children]) indent
    have bodyFirm := inductionHypothesis body (by simp [Expr.children]) indent
    have nullFirm := firm_literal context .typedNull (type.lifted context) indent
    refine .concat ?_ rfl nullFirm.endsFirm
    simp [(firm_parenthesized receiverFirm _ _).verbatim, (firm_branched bodyFirm _ _).verbatim,
      nullFirm.verbatim]

/-- Printing an expression gives all its characters. -/
theorem toList_printExpression (context : NullableContext) {expr : Expr}
    (named : expr.isWellNamed = true) :
    (printExpression context expr).toList = (expression context expr).plain 0 := by
  have firm := firm_expression context named 0
  rw [printExpression, render, String.toList_ofList, firm.verbatim,
    trimOutput_of_endsFirm firm.endsFirm]
  simp

/-! ### Nulls with types -/

private theorem neverCast_identifier {name : String} (named : isIdentifier name = true) :
    NeverCast name.toList := by
  refine .of_all (List.all_eq_true.2 fun c listed => ?_)
  have word := List.all_eq_true.1 (isIdentifier_all named) c listed
  simp [isTypeChar, word]

private theorem neverCast_numeral (numeral : Numeral) : NeverCast numeral.text := by
  refine .of_all (List.all_eq_true.2 fun c listed => ?_)
  have member := mem_numeral numeral.isNumeral_text listed
  simp only [isNumeralChar, Bool.or_eq_true, beq_iff_eq] at member
  rcases member with ((digit | rfl) | rfl) | rfl
  · simp [isTypeChar, isWordChar, Char.isAlphanum, digit]
  · rfl
  · rfl
  · rfl

private theorem neverCast_literal (context : NullableContext) (value : Literal) (type : TypeRef)
    (indent : Int64) : NeverCast ((literal context value type).plain indent) := by
  cases value with
  | null => exact .of_all rfl
  | typedNull => exact .of_stops rfl
  | bool value => cases value <;> exact .of_all rfl
  | integer value =>
    have never := neverCast_numeral (Numeral.ofInt value.toInt)
    rwa [Numeral.text_ofInt] at never
  | float value =>
    change NeverCast (floatLiteral value).toList
    rcases floatLiteral_cases value with ⟨-, textEq⟩ | ⟨-, textEq⟩ | ⟨-, textEq⟩ | ⟨-, textEq⟩
    · rw [textEq]
      exact .of_all rfl
    · rw [textEq]
      exact .of_all rfl
    · rw [textEq]
      exact .of_all rfl
    · rw [textEq]
      exact neverCast_numeral _
  | string value =>
    refine .of_stops ?_
    simp [literal, stringLiteral]
    rfl

private theorem neverCast_parenthesized {indent : Int64} {layout : Document}
    (never : NeverCast (layout.plain indent)) (expr : Expr) (least : Precedence) :
    NeverCast ((parenthesized expr least layout).plain indent) := by
  unfold parenthesized
  split
  · exact .of_stops rfl
  · exact never

private theorem neverCast_access {name : String} (named : isIdentifier name = true)
    (optional : Bool) (rest : List Char) (restNever : NeverCast rest) :
    NeverCast ((accessMark optional).toList ++ (name.toList ++ rest)) := by
  cases optional with
  | false =>
    have pointNever : NeverCast ".".toList := .of_all rfl
    exact pointNever.append ((neverCast_identifier named).append restNever)
  | true => exact .optional (name.toList ++ rest)

private theorem neverCast_new (type : String) (rest : List Char) :
    NeverCast (("new " ++ type).toList ++ rest) := by
  have newNever : NeverCast "new".toList := .of_all rfl
  rw [String.toList_append, List.append_assoc]
  exact newNever.append (.of_stops rfl)

/-- No expression starts like a null with its type. -/
theorem neverCast_expression (context : NullableContext) {expr : Expr}
    (named : expr.isWellNamed = true) :
    ∀ indent, NeverCast ((expression context expr).plain indent) := by
  refine Expr.induction_on_wellNamed (motive := fun expr =>
    ∀ indent, NeverCast ((expression context expr).plain indent)) ?_ named
  intro expr spelled inductionHypothesis indent
  have placed (child : Expr) (listed : child ∈ expr.children) (least : Precedence) :=
    neverCast_parenthesized (inductionHypothesis child listed indent) child least
  cases expr with
  | literal value type => exact neverCast_literal context value type indent
  | parameter name type => exact neverCast_identifier spelled
  | member receiver name optional type =>
    exact (placed receiver (by simp [Expr.children]) .primary).append
      (neverCast_access spelled optional [] fun _ fails => fails)
  | call target style receiver arguments optional type =>
    simp only [Expr.isSpelled, Bool.and_eq_true, Bool.or_eq_true, bne_iff_ne, ne_eq] at spelled
    obtain ⟨scopeNamed, nameNamed⟩ := spelled
    have nameNever := neverCast_identifier nameNamed
    have pointNever : NeverCast ".".toList := .of_all rfl
    have prefixed (inner : Expr) (listed : inner ∈ receiver.toList) :=
      (placed inner (List.mem_append_left _ listed) .primary).append
        (neverCast_access nameNamed optional [] fun _ fails => fails)
    have calleeNever : NeverCast ((calleeLayout context target style receiver optional).plain
        indent) := by
      by_cases static : style = .static
      · have scopeNever := neverCast_identifier (scopeNamed.resolve_left (not_not_intro static))
        subst static
        simpa [calleeLayout] using scopeNever.append (pointNever.append nameNever)
      · cases receiver with
        | none => cases style <;> simp_all [calleeLayout]
        | some inner => cases style <;> simp_all [calleeLayout]
    rw [expression_call]
    exact calleeNever.append (.of_stops rfl)
  | construct type arguments initializers =>
    cases initializers with
    | nil => exact neverCast_new _ _
    | cons first rest => exact neverCast_new _ _
  | conditional condition whenTrue whenFalse type =>
    exact (placed condition (by simp [Expr.children]) .coalesce).append (.of_stops rfl)
  | coalesce left right type =>
    exact (placed left (by simp [Expr.children]) .or).append (.of_stops rfl)
  | binary op left right type =>
    exact (placed left (by simp [Expr.children]) (.ofOp op)).append (.of_stops rfl)
  | raise exception type =>
    have raiseNever : NeverCast "throw".toList := .of_all rfl
    exact raiseNever.append (.of_stops rfl)
  | projection source element transform materialize type =>
    have selectNever : NeverCast ".Select".toList := .of_all rfl
    have never : NeverCast ((selectLayout context source element transform).plain indent) :=
      (placed source (by simp [Expr.children]) .primary).append (selectNever.append (.of_stops rfl))
    cases materialize with
    | none => exact never
    | some method =>
      have methodNamed : isIdentifier method = true := by
        simp only [Expr.isSpelled, Bool.and_eq_true, Option.all_some] at spelled
        exact spelled.2
      exact never.append (neverCast_access methodNamed false _ (.of_stops rfl))
  | guarded receiver body type =>
    exact (placed receiver (by simp [Expr.children]) .equality).append (.of_stops rfl)

end Source

end MappingForms
