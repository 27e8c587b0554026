import MappingForms.Proofs.Source.Places

/-!
Contract: reading the text of an expression gives its surface form back.

Owns: the round trip of each kind of expression, and that expressions with one text have one
surface form.
-/

set_option autoImplicit false

namespace MappingForms

namespace Source

open Document

variable {decode : List Char → Option Literal} {context : NullableContext} {expr : Expr}
  {indent : Int64} {rest : List Char}

/-! ### Kinds of expressions -/

private theorem readsBack_literal {value : Literal} {type : TypeRef}
    (decodes : Numeral.Decodes decode) (spelled : (Expr.literal value type).isSpelled = true) :
    ReadsBack decode context (.literal value type) := by
  intro indent least rest _ boundary _
  have firm := firm_literal context value type indent
  refine readAt_of_operand least (readOperand_ofLiteral decodes ?_ boundary indent)
    (length_lt_append firm.endsFirm.ne_nil rest)
  rintro rfl
  exact spelled

private theorem readsBack_parameter {name : String} {type : TypeRef}
    (named : isIdentifier name = true) :
    ReadsBack decode context (.parameter name type) :=
  fun _ _ _ _ boundary _ => readAt_name named boundary

private theorem readsBack_member {receiver : Expr} {name : String} {optional : Bool}
    {type : TypeRef}
    (named : isIdentifier name = true) (readable : Readable decode context receiver) :
    ReadsBack decode context (.member receiver name optional type) := by
  intro indent least rest binds boundary _
  have textEq : (expression context (.member receiver name optional type)).plain indent ++ rest =
      (parenthesized receiver .primary (expression context receiver)).plain indent ++
        ((accessMark optional).toList ++ (name.toList ++ rest)) := by
    simp [expression]
  rw [textEq, readAt_receiver readable (boundary_access named optional rest)]
  exact readLinks_accessed named optional _ boundary.word

private theorem readAt_callee {target : CallableId} {style : CallStyle} {receiver : Option Expr}
    {optional : Bool} {least : Precedence}
    (scopeNamed : style = .static → isIdentifier target.scope = true)
    (nameNamed : isIdentifier target.name = true)
    (readable : ∀ inner ∈ receiver, Readable decode context inner) (boundary : Boundary rest) :
    readAt decode least
        ((calleeLayout context target style receiver optional).plain indent ++ rest) =
      readLinks decode least (.ofCallee context target style receiver optional) rest := by
  have onReceiver (inner : Expr) (listed : inner ∈ receiver) :
      readAt decode least ((concat [parenthesized inner .primary (expression context inner),
          accessMark optional, target.name]).plain indent ++ rest) =
        readLinks decode least (.access (.ofExpr context inner) optional target.name) rest := by
    simp only [plain, plainAll, List.append_assoc, List.append_nil]
    rw [readAt_receiver (readable inner listed) (boundary_access nameNamed optional rest)]
    exact readLinks_accessed nameNamed optional _ boundary.word
  by_cases static : style = .static
  · subst static
    have textEq : (calleeLayout context target .static receiver optional).plain indent ++ rest =
        target.scope.toList ++ ((accessMark false).toList ++ (target.name.toList ++ rest)) := by
      simp [calleeLayout, accessMark]
    rw [textEq, readAt_name (scopeNamed rfl) (boundary_access nameNamed false rest),
      readLinks_accessed nameNamed false _ boundary.word]
    rfl
  · cases receiver with
    | some inner =>
      have innerEq := onReceiver inner rfl
      cases style <;> simp_all [calleeLayout, Surface.ofCallee]
    | none =>
      have nameEq : readAt decode least (target.name.toList ++ rest) = _ :=
        readAt_name nameNamed boundary
      cases style <;> simp_all [calleeLayout, Surface.ofCallee]

private theorem boundary_arguments (arguments : List Document) (indent : Int64) (rest : List Char) :
    Boundary ((argumentList arguments).plain indent ++ rest) := ⟨rfl, rfl, rfl, rfl⟩

private theorem readsBack_call {target : CallableId} {style : CallStyle} {receiver : Option Expr}
    {arguments : List Expr} {optional : Bool} {type : TypeRef}
    (spelled : (Expr.call target style receiver arguments optional type).isSpelled = true)
    (readable : ∀ child ∈ (Expr.call target style receiver arguments optional type).children,
      Readable decode context child) :
    ReadsBack decode context (.call target style receiver arguments optional type) := by
  intro indent least rest _ boundary _
  simp only [Expr.isSpelled, Bool.and_eq_true, Bool.or_eq_true, bne_iff_ne, ne_eq] at spelled
  obtain ⟨scopeNamed, nameNamed⟩ := spelled
  rw [expression_call, Surface.ofExpr_call]
  simp only [plain, plainAll, List.append_assoc, List.append_nil]
  rw [readAt_callee (fun static => scopeNamed.resolve_left (not_not_intro static)) nameNamed
    (fun inner listed => readable inner (List.mem_append_left _ (Option.mem_toList.2 listed)))
    (boundary_arguments (operands context arguments) indent rest)]
  exact readLinks_invoked _ fun argument listed =>
    readable argument (List.mem_append_right _ listed)

/-- The branches of a choice, after its condition. -/
theorem readLinks_branches {whenTrue : Expr} {whenFalse : Surface} {falseText : List Char}
    {least : Precedence} (condition : Surface) (binds : least.level ≤ 1)
    (trueReadable : Readable decode context whenTrue) (nonempty : falseText ≠ [])
    (falseEq : readAt decode .conditional (falseText ++ rest) = some (whenFalse, rest)) :
    readLinks decode least condition (" ? ".toList ++
        ((branched whenTrue .coalesce (expression context whenTrue)).plain indent ++
          (" : ".toList ++ (falseText ++ rest)))) =
      readLinks decode least (.conditional condition (.ofExpr context whenTrue) whenFalse)
        rest := by
  have trueFirm := firm_branched (firm_expression context trueReadable.named indent) whenTrue
    .coalesce
  have trueEq : readAt decode .coalesce
      ((branched whenTrue .coalesce (expression context whenTrue)).plain indent ++
        (" : ".toList ++ (falseText ++ rest))) =
        some (.ofExpr context whenTrue, " : ".toList ++ (falseText ++ rest)) :=
    readAt_branch trueReadable ⟨rfl, rfl, rfl, rfl⟩ (Nat.zero_le 1) (by decide) (.of_none rfl 0)
  exact readLinks_conditional condition rfl (length_lt_append (by decide) _) binds trueEq
    (length_lt_append trueFirm.endsFirm.ne_nil _) rfl (length_lt_append (by decide) _) falseEq
    (length_lt_append nonempty rest)

private theorem readsBack_conditional {condition whenTrue whenFalse : Expr} {type : TypeRef}
    (conditionReadable : Readable decode context condition)
    (trueReadable : Readable decode context whenTrue)
    (falseReadable : Readable decode context whenFalse) :
    ReadsBack decode context (.conditional condition whenTrue whenFalse type) := by
  intro indent least rest (binds : least.level ≤ 1) boundary (admits : Admits 0 rest)
  have falseFirm := firm_branched (firm_expression context falseReadable.named indent) whenFalse
    .conditional
  simp only [expression, plain, plainAll, List.append_assoc, List.append_nil]
  rw [readAt_parenthesized conditionReadable (binds.trans (by decide)) ⟨rfl, rfl, rfl, rfl⟩
    (admits_of_loose (by decide : 1 < 2) (.of_link rfl (by decide)))]
  exact readLinks_branches _ binds trueReadable falseFirm.endsFirm.ne_nil
    (readAt_branch falseReadable boundary (Nat.zero_le 1) (by decide) admits)

private theorem readsBack_coalesce {left right : Expr} {type : TypeRef}
    (leftReadable : Readable decode context left) (rightReadable : Readable decode context right) :
    ReadsBack decode context (.coalesce left right type) := by
  intro indent least rest (binds : least.level ≤ 2) boundary (admits : Admits 1 rest)
  have rightFirm := firm_branched (firm_expression context rightReadable.named indent) right
    .coalesce
  simp only [expression, plain, plainAll, List.append_assoc, List.append_nil]
  rw [readAt_parenthesized leftReadable (binds.trans (by decide)) ⟨rfl, rfl, rfl, rfl⟩
    (admits_of_tight (by decide) (.of_link rfl (by decide)))]
  exact readLinks_coalesce _ rfl (length_lt_append (by decide) _) binds
    (readAt_branch rightReadable boundary (Nat.le_refl 1) (by decide) admits)
    (length_lt_append rightFirm.endsFirm.ne_nil rest)

private theorem level_tighter (op : BinaryOp) :
    (Precedence.ofOp op).tighter.level = (Precedence.ofOp op).level + 1 := by
  cases op <;> rfl

private theorem readsBack_binary {op : BinaryOp} {left right : Expr} {type : TypeRef}
    (leftReadable : Readable decode context left) (rightReadable : Readable decode context right) :
    ReadsBack decode context (.binary op left right type) := by
  intro indent least rest (binds : least.level ≤ (Precedence.ofOp op).level) boundary
    (admits : Admits (Precedence.ofOp op).level rest)
  have less : (Precedence.ofOp op).level < (Precedence.ofOp op).tighter.level := by
    rw [level_tighter]
    exact Nat.lt_succ_self _
  have rightFirm := firm_parenthesized (firm_expression context rightReadable.named indent) right
    (Precedence.ofOp op).tighter
  simp only [expression, plain_append, plain, plainAll, List.append_assoc, List.append_nil]
  rw [readAt_parenthesized leftReadable binds (boundary_binary op _)
    (admits_of_tight (three_le_ofOp op) (.of_link (link?_binary op _) (Nat.le_refl _)))]
  refine readLinks_binary _ (link?_binary op _) ?_ binds
    (readAt_last rightReadable boundary less admits)
    (length_lt_append rightFirm.endsFirm.ne_nil rest)
  simp only [List.length_append]
  have space : " ".toList.length = 1 := rfl
  omega

private theorem readsBack_raise {exception : Expr} {type : TypeRef}
    (readable : Readable decode context exception) :
    ReadsBack decode context (.raise exception type) := by
  intro indent least rest _ boundary (admits : Admits 1 rest)
  have exceptionEq : readAt decode .coalesce
      ((parenthesized exception .coalesce (expression context exception)).plain indent ++ rest) =
        some (.ofExpr context exception, rest) :=
    readAt_last readable boundary (by decide) admits
  simp only [expression, plain, plainAll, List.append_assoc, List.append_nil]
  refine readAt_of_operand least
    (readOperand_raise (head?_throw _) (length_lt_append (by decide) _) exceptionEq) ?_
  simp
  omega

/-- A check against null, before the choice that it decides. -/
theorem readLinks_notNull {least : Precedence} (left : Surface) (binds : least.level ≤ 1)
    (tail : List Char) :
    readLinks decode least left (" != null ? ".toList ++ tail) =
      readLinks decode least (.binary .notEqual left (.literal .null)) (" ? ".toList ++ tail) := by
  have headEq : head? decode ("null".toList ++ (" ? ".toList ++ tail)) =
      some (.literal .null, " ? ".toList ++ tail) := (head?_word rfl rfl rfl).trans rfl
  have shorter : (" ? ".toList ++ tail).length < ("null".toList ++ (" ? ".toList ++ tail)).length :=
    length_lt_append (by decide) _
  have nullEq : readAt decode (Precedence.ofOp .notEqual).tighter
      ("null".toList ++ (" ? ".toList ++ tail)) = some (.literal .null, " ? ".toList ++ tail) := by
    rw [readAt_of_operand _ (readOperand_atom headEq rfl shorter) shorter]
    exact readLinks_of_admits _ (.of_link rfl (Nat.le_refl 1)) (by decide)
  have linkShorter : ("null".toList ++ (" ? ".toList ++ tail)).length <
      (" != null ? ".toList ++ tail).length := by
    simp
  exact readLinks_binary left (link?_binary .notEqual _) linkShorter (binds.trans (by decide))
    nullEq shorter

private theorem readsBack_guarded {receiver body : Expr} {type : TypeRef}
    (typeNamed : isTypeName type.name = true) (decodes : Numeral.Decodes decode)
    (receiverReadable : Readable decode context receiver)
    (bodyReadable : Readable decode context body) :
    ReadsBack decode context (.guarded receiver body type) := by
  intro indent least rest (binds : least.level ≤ 1) boundary (admits : Admits 0 rest)
  have nullFirm := firm_literal context .typedNull (type.lifted context) indent
  have falseEq : readAt decode .conditional
      ((literal context .typedNull (type.lifted context)).plain indent ++ rest) =
        some (.typedNull ((type.lifted context).display context), rest) := by
    rw [readAt_of_operand _ (readOperand_ofLiteral decodes (fun _ => ?_) boundary indent)
      (length_lt_append nullFirm.endsFirm.ne_nil rest)]
    · exact readLinks_of_admits _ admits (by decide)
    · unfold TypeRef.lifted
      split <;> exact typeNamed
  simp only [expression, plain, plainAll, List.append_assoc, List.append_nil]
  rw [readAt_parenthesized receiverReadable (binds.trans (by decide)) ⟨rfl, rfl, rfl, rfl⟩
    (admits_of_tight (by decide) (.of_link rfl (by decide))), readLinks_notNull _ binds]
  exact readLinks_branches _ binds bodyReadable nullFirm.endsFirm.ne_nil falseEq

private theorem readAt_lambda {element : String} {transform : Expr}
    (named : isIdentifier element = true)
    (reads : ReadsBack decode context transform) (indent : Int64) (rest : List Char) :
    readAt decode .conditional (element.toList ++ (" => ".toList ++
        ((expression context transform).plain indent ++ ')' :: rest))) =
      some (.lambda element (.ofExpr context transform), ')' :: rest) := by
  have bodyEq := readAt_whole reads indent (boundary_closing rest) rfl
  have arrow : 0 < " => ".toList.length := by decide
  rw [readAt_of_operand _ (readOperand_lambda (head?_lambda named _) ?_ bodyEq) ?_]
  · exact readLinks_of_admits _ (.of_none rfl 0) (by decide)
  · simp only [List.length_append]
    omega
  · simp only [List.length_append]
    omega

/-- A projection before it is materialized. -/
theorem readAt_select {source transform : Expr} {element : String} {least : Precedence}
    (elementNamed : isIdentifier element = true) (sourceReadable : Readable decode context source)
    (transformReads : ReadsBack decode context transform) :
    readAt decode least ((selectLayout context source element transform).plain indent ++ rest) =
      readLinks decode least (.invoke (.access (.ofExpr context source) false "Select")
        [.lambda element (.ofExpr context transform)]) rest := by
  have selectNamed : isIdentifier "Select" = true := by decide
  have lambdaEq := readAt_lambda elementNamed transformReads indent rest
  have argumentsEq : readArguments decode (element.toList ++ (" => ".toList ++
      ((expression context transform).plain indent ++ ')' :: rest))) =
        some ([.lambda element (.ofExpr context transform)], rest) := by
    refine readArguments_last (mark?_of_readAt lambdaEq) lambdaEq ?_
    have arrow : 0 < " => ".toList.length := by decide
    simp only [List.length_append]
    omega
  have textEq : (selectLayout context source element transform).plain indent ++ rest =
      (parenthesized source .primary (expression context source)).plain indent ++
        ((accessMark false).toList ++ ("Select".toList ++ ('(' :: (element.toList ++
          (" => ".toList ++ ((expression context transform).plain indent ++ ')' :: rest)))))) := by
    simp [selectLayout, accessMark]
  rw [textEq, readAt_receiver sourceReadable (boundary_access selectNamed false _),
    readLinks_accessed selectNamed false _ rfl]
  refine readLinks_arguments _ rfl (Nat.lt_succ_self _) (level_le_ten least) argumentsEq ?_
  simp only [List.length_append, List.length_cons]
  omega

private theorem readsBack_projection {source transform : Expr} {element : String}
    {materialize : Option String} {type : TypeRef}
    (spelled : (Expr.projection source element transform materialize type).isSpelled = true)
    (sourceReadable : Readable decode context source)
    (transformReads : ReadsBack decode context transform) :
    ReadsBack decode context (.projection source element transform materialize type) := by
  intro indent least rest _ boundary _
  simp only [Expr.isSpelled, Bool.and_eq_true] at spelled
  cases materialize with
  | none => exact readAt_select spelled.1 sourceReadable transformReads
  | some method =>
    have methodNamed : isIdentifier method = true := spelled.2
    have callEq (left : Surface) : readLinks decode least left ("()".toList ++ rest) =
        readLinks decode least (.invoke left []) rest :=
      readLinks_arguments left rfl (Nat.lt_succ_self _) (level_le_ten least)
        (readArguments_nil rest) (Nat.lt_succ_self _)
    rw [expression_materialize]
    simp only [plain, plainAll, List.append_assoc, List.append_nil]
    rw [readAt_select spelled.1 sourceReadable transformReads]
    exact (readLinks_accessed methodNamed false _ rfl).trans (callEq _)

private theorem readMembers_written {type : String} {arguments : List Surface}
    {initializers : List Initializer} (nonempty : initializers ≠ [])
    (spelled : ∀ initializer ∈ initializers, isIdentifier initializer.member = true)
    (readable : ∀ initializer ∈ initializers, Readable decode context initializer.value) :
    readMembers decode type arguments
        ((block (join (assignments context initializers) ",")).plain indent ++ rest) =
      some (.construct type arguments (Surface.ofInitializers context initializers), rest) := by
  have textEq : (block (join (assignments context initializers) ",")).plain indent ++ rest =
      line.plain indent ++ '\x7b' ::
        (plainAll (indent + indentWidth) (separated "," (assignments context initializers)) ++
          (line.plain indent ++ '\x7d' :: rest)) := by
    simp [block, join]
  rw [textEq]
  refine readMembers_block (onNewLine?_line _ rfl) ?_
    (readInitializers_assignments nonempty spelled readable)
  simp only [List.length_append, List.length_cons]
  omega

/-- The arguments of a construction, before what follows them. -/
theorem readOperand_actuals {type : TypeRef} {arguments : List Expr}
    (typeNamed : isTypeName type.name = true)
    (readable : ∀ argument ∈ arguments, Readable decode context argument) :
    readOperand decode (("new " ++ type.display context : String).toList ++
        ((argumentList (operands context arguments)).plain indent ++ rest)) =
      readMembers decode (type.display context) (Surface.ofExprs context arguments) rest := by
  rw [plain_argumentList]
  refine readOperand_construct (head?_new typeNamed rfl rfl) ?_
    (readArguments_operands readable indent rest) ?_
  · simp only [List.length_append, List.length_cons, String.toList_append]
    have new : "new ".toList.length = 4 := rfl
    omega
  · simp only [List.length_append, List.length_cons]
    omega

private theorem readOperand_new {type : TypeRef} {arguments : List Expr}
    {initializers : List Initializer} (typeNamed : isTypeName type.name = true)
    (spelled : ∀ initializer ∈ initializers, isIdentifier initializer.member = true)
    (arguable : ∀ argument ∈ arguments, Readable decode context argument)
    (assignable : ∀ initializer ∈ initializers, Readable decode context initializer.value)
    (boundary : Boundary rest) :
    readOperand decode
        ((expression context (.construct type arguments initializers)).plain indent ++ rest) =
      some (.ofExpr context (.construct type arguments initializers), rest) := by
  cases initializers with
  | nil =>
    rw [expression_construct_bare]
    simp only [plain, plainAll, List.append_assoc, List.append_nil]
    rw [readOperand_actuals typeNamed arguable,
      readMembers_none boundary.block]
    rfl
  | cons first others =>
    rw [expression_construct_block]
    simp only [plain, plainAll, List.append_assoc, List.append_nil]
    cases arguments with
    | nil =>
      rw [readOperand_construct_bare (head?_new typeNamed rfl rfl) ?_ rfl]
      · exact readMembers_written (List.cons_ne_nil first others) spelled assignable
      · exact length_lt_append (by simp) _
    | cons argument arguments =>
      have actualsEq : actualsLayout context (argument :: arguments) =
          argumentList (operands context (argument :: arguments)) := rfl
      rw [actualsEq, readOperand_actuals typeNamed arguable,
        readMembers_written (List.cons_ne_nil first others) spelled assignable]
      rfl

private theorem readsBack_construct {type : TypeRef} {arguments : List Expr}
    {initializers : List Initializer}
    (spelled : (Expr.construct type arguments initializers).isSpelled = true)
    (readable : ∀ child ∈ (Expr.construct type arguments initializers).children,
      Readable decode context child) :
    ReadsBack decode context (.construct type arguments initializers) := by
  intro indent least rest _ boundary _
  simp only [Expr.isSpelled, Bool.and_eq_true, List.all_eq_true] at spelled
  have nonempty :
      (expression context (.construct type arguments initializers)).plain indent ≠ [] := by
    cases initializers <;> simp [expression_construct_bare, expression_construct_block]
  refine readAt_of_operand least (readOperand_new spelled.1 spelled.2 ?_ ?_ boundary)
    (length_lt_append nonempty rest)
  · exact fun argument listed => readable argument (List.mem_append_left _ listed)
  · exact fun initializer listed =>
      readable _ (List.mem_append_right _ (List.mem_map_of_mem listed))

/-- Every expression whose names can be read back is read back. -/
theorem readsBack (decodes : Numeral.Decodes decode) (named : expr.isWellNamed = true) :
    ReadsBack decode context expr := by
  induction expr using Expr.induction_on_children with
  | step expr inductionHypothesis =>
    have spelled := Expr.isSpelled_of_isWellNamed named
    have readable : ∀ child ∈ expr.children, Readable decode context child := fun child listed =>
      have childNamed := Expr.isWellNamed_of_mem_children named listed
      ⟨childNamed, inductionHypothesis child listed childNamed⟩
    cases expr with
    | literal value type => exact readsBack_literal decodes spelled
    | parameter name type => exact readsBack_parameter spelled
    | call target style receiver arguments optional type => exact readsBack_call spelled readable
    | construct type arguments initializers => exact readsBack_construct spelled readable
    | member receiver name optional type =>
      simp only [Expr.children, List.forall_mem_cons] at readable
      exact readsBack_member spelled readable.1
    | conditional condition whenTrue whenFalse type =>
      simp only [Expr.children, List.forall_mem_cons] at readable
      exact readsBack_conditional readable.1 readable.2.1 readable.2.2.1
    | coalesce left right type =>
      simp only [Expr.children, List.forall_mem_cons] at readable
      exact readsBack_coalesce readable.1 readable.2.1
    | binary op left right type =>
      simp only [Expr.children, List.forall_mem_cons] at readable
      exact readsBack_binary readable.1 readable.2.1
    | raise exception type =>
      simp only [Expr.children, List.forall_mem_cons] at readable
      exact readsBack_raise readable.1
    | projection source element transform materialize type =>
      simp only [Expr.children, List.forall_mem_cons] at readable
      exact readsBack_projection spelled readable.1 readable.2.1.readsBack
    | guarded receiver body type =>
      simp only [Expr.children, List.forall_mem_cons] at readable
      exact readsBack_guarded spelled decodes readable.1 readable.2.1

/-- The reader recovers the surface form of an expression from its text. -/
theorem readAt_printExpression (decodes : Numeral.Decodes decode)
    (named : expr.isWellNamed = true) :
    readAt decode .conditional (printExpression context expr).toList =
      some (.ofExpr context expr, []) := by
  have reads : ReadsBack decode context expr := readsBack decodes named
  have ended : Boundary [] := ⟨rfl, rfl, rfl, rfl⟩
  rw [toList_printExpression context named, ← List.append_nil ((expression context expr).plain 0)]
  exact readAt_whole reads 0 ended rfl

/-- Expressions with one text have one surface form. -/
theorem printExpression_unambiguous (context : NullableContext) (left right : Expr)
    (leftNamed : left.isWellNamed = true) (rightNamed : right.isWellNamed = true)
    (same : printExpression context left = printExpression context right) :
    Surface.ofExpr context left = Surface.ofExpr context right := by
  obtain ⟨decode, decodes⟩ := Numeral.exists_decodes
  have readEq : some (Surface.ofExpr context left, ([] : List Char)) =
      some (Surface.ofExpr context right, []) := by
    rw [← readAt_printExpression decodes leftNamed, same, readAt_printExpression decodes rightNamed]
  exact congrArg Prod.fst (Option.some.inj readEq)

/-! ### Two trees with one text -/

namespace OrderNotes

def order : Expr := .parameter "order" (.reference "Order")

def note : TypeRef := .reference "Result<string>"

def lineNotes (materialize : Option String) : Expr :=
  .projection (.member order "Lines" false note) "line"
    (.member (.parameter "line" note) "Note" true note) materialize note

/-- A guarded access, as an argument of a static call on a list. -/
def guardedForm : Expr :=
  .call ⟨"Notes", "Join", "notes"⟩ .static none
    [lineNotes (some "ToList"), .guarded order (.member order "Note" false note) note] false note

/-- The choice that the guard is written as, in a call on a name, with the list made by a call. -/
def expandedForm : Expr :=
  .call ⟨"", "Join", ""⟩ .method (some (.parameter "Notes" note))
    [.call ⟨"", "ToList", ""⟩ .method (some (lineNotes none)) [] false note,
      .conditional order.notNullCheck (.member order "Note" false note)
        (.literal .typedNull (note.lifted .enabled)) note] false note

/-- Both trees are written as `Notes.Join(` followed by the arguments
`order.Lines.Select(line => line?.Note).ToList()` and
`order != null ? order.Note : (Result<string>?)null`. -/
theorem guarded_and_expanded_alike :
    guardedForm.isWellNamed = true ∧ expandedForm.isWellNamed = true ∧
      printExpression .enabled guardedForm = printExpression .enabled expandedForm ∧
      Surface.ofExpr .enabled guardedForm = Surface.ofExpr .enabled expandedForm := by
  have guardedNamed : guardedForm.isWellNamed = true := by decide
  have expandedNamed : expandedForm.isWellNamed = true := by decide
  have same : printExpression .enabled guardedForm = printExpression .enabled expandedForm := by
    decide
  exact ⟨guardedNamed, expandedNamed, same,
    printExpression_unambiguous .enabled _ _ guardedNamed expandedNamed same⟩

end OrderNotes

end Source

end MappingForms
