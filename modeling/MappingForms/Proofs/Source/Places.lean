import MappingForms.Proofs.Source.Operands

/-!
Contract: reading an expression in its place.

Owns: which places and which links an expression's text fits, and the reading of expressions in
parentheses, as receivers, as branches, as arguments and as assigned values.

All of it holds for expressions that are read back on their own, so that the round trip is left
with one step for each kind of expression.
-/

set_option autoImplicit false

namespace MappingForms

namespace Source

open Document

variable {decode : List Char → Option Literal}

/-! ### Precedence of text -/

/-- The tightest link that may follow an expression without joining its last operand. -/
def trailing : Expr → Nat
  | .conditional .. | .guarded .. => 0
  | .coalesce .. | .raise .. => 1
  | .binary op _ _ _ => (Precedence.ofOp op).level
  | _ => 10

/-- The tightest place in which an expression is read as a whole. One that throws is read as an
operand. -/
def opening (expr : Expr) : Nat := if expr.isRaise then 10 else (Precedence.of expr).level

theorem level_le_ten (precedence : Precedence) : precedence.level ≤ 10 := by
  cases precedence <;> decide

private theorem level_le_opening (expr : Expr) : (Precedence.of expr).level ≤ opening expr := by
  unfold opening
  split
  · exact level_le_ten _
  · exact Nat.le_refl _

private theorem nine_le_ofLiteral (value : Literal) : 9 ≤ (Precedence.ofLiteral value).level := by
  cases value <;> simp only [Precedence.ofLiteral] <;> first | decide | (split <;> decide)

theorem three_le_ofOp (op : BinaryOp) : 3 ≤ (Precedence.ofOp op).level := by
  cases op <;> decide

private theorem one_le_opening (expr : Expr) : 1 ≤ opening expr := by
  cases expr with
  | literal value type => exact (by decide : 1 ≤ 9).trans (nine_le_ofLiteral value)
  | binary op left right type => exact (by decide : 1 ≤ 3).trans (three_le_ofOp op)
  | _ => simp [opening, Expr.isRaise, Precedence.of, Precedence.level]

private theorem level_le_trailing (expr : Expr) :
    (Precedence.of expr).level ≤ trailing expr + 1 := by
  cases expr with
  | literal value type => exact (level_le_ten _).trans (by decide : 10 ≤ 11)
  | binary op left right type => exact Nat.le_succ _
  | _ => simp [trailing, Precedence.of, Precedence.level]

private theorem level_le_trailing_of_tight {expr : Expr} (tight : 3 ≤ (Precedence.of expr).level) :
    (Precedence.of expr).level ≤ trailing expr := by
  cases expr with
  | literal value type => exact level_le_ten _
  | binary op left right type => exact Nat.le_refl _
  | _ => simp_all [trailing, Precedence.of, Precedence.level]

private theorem trailing_of_isRaise {expr : Expr} (raises : expr.isRaise = true) :
    trailing expr = 1 := by
  cases expr <;> simp_all [Expr.isRaise, trailing]

/-- A link of an operator's own precedence may follow its left operand. -/
theorem admits_of_tight {expr : Expr} {place : Precedence} {rest : List Char}
    (operator : 3 ≤ place.level) (admits : Admits place.level rest)
    (tight : place.level ≤ (Precedence.of expr).level) : Admits (trailing expr) rest :=
  admits.mono (tight.trans (level_le_trailing_of_tight (operator.trans tight)))

/-- A link that binds less than a place demands may follow an expression there. -/
theorem admits_of_loose {expr : Expr} {place : Precedence} {level : Nat} {rest : List Char}
    (less : level < place.level) (admits : Admits level rest)
    (tight : place.level ≤ (Precedence.of expr).level) : Admits (trailing expr) rest := by
  have bound := level_le_trailing expr
  exact admits.mono (by omega)

/-! ### Places -/

/-- Reading the text of an expression, whatever follows, gives its surface form and goes on with
the links that follow. -/
def ReadsBack (decode : List Char → Option Literal) (context : NullableContext) (expr : Expr) :
    Prop :=
  ∀ indent least rest, least.level ≤ opening expr → Boundary rest → Admits (trailing expr) rest →
    readAt decode least ((expression context expr).plain indent ++ rest) =
      readLinks decode least (.ofExpr context expr) rest

/-- An expression that is read back in every place: also in parentheses, where its names keep it
apart from a null with its type. -/
structure Readable (decode : List Char → Option Literal) (context : NullableContext)
    (expr : Expr) : Prop where
  named : expr.isWellNamed = true
  readsBack : ReadsBack decode context expr

variable {context : NullableContext} {expr : Expr} {indent : Int64} {rest : List Char}

private theorem castType?_closing (other : startsWith isWordChar rest = false) :
    castType? (')' :: rest) = none := by
  cases rest with
  | nil => rfl
  | cons c rest =>
    rw [startsWith_cons] at other
    have notNull : c ≠ 'n' := by rintro rfl; exact absurd other (by decide)
    have typeEq : typeAt (')' :: c :: rest) = ("", ')' :: c :: rest) := rfl
    simp [castType?, typeEq, mark?, without?, notNull.symm]

/-- In parentheses an expression is an operand. -/
theorem readOperand_enclosed (readable : Readable decode context expr) (indent : Int64)
    (boundary : Boundary rest) :
    readOperand decode ('(' :: ((expression context expr).plain indent ++ ')' :: rest)) =
      some (.ofExpr context expr, rest) := by
  have noCast := neverCast_expression context readable.named indent (')' :: rest)
    (castType?_closing boundary.word)
  have innerEq := readable.readsBack indent .conditional (')' :: rest) (one_le_opening expr)
    (boundary_closing rest) (.of_none rfl _)
  rw [readLinks_of_admits (.ofExpr context expr) (.of_none rfl 0) (by decide)] at innerEq
  exact readOperand_parenthesis (by rw [head?, if_pos rfl, noCast]) (Nat.lt_succ_self _) innerEq

/-- An expression is read back from any place, with or without parentheses as its place demands. -/
theorem readAt_parenthesized {least place : Precedence} (readable : Readable decode context expr)
    (binds : least.level ≤ place.level) (boundary : Boundary rest)
    (admits : place.level ≤ (Precedence.of expr).level → Admits (trailing expr) rest) :
    readAt decode least
        ((parenthesized expr place (expression context expr)).plain indent ++ rest) =
      readLinks decode least (.ofExpr context expr) rest := by
  unfold parenthesized
  split
  next loose =>
    have operandEq := readOperand_enclosed readable indent boundary
    simp only [plain, plainAll, List.append_assoc, List.append_nil]
    exact readAt_of_operand least operandEq (by simp; omega)
  next tight =>
    have enough := Nat.le_of_not_lt tight
    exact readable.readsBack indent least rest
      (binds.trans (enough.trans (level_le_opening expr))) boundary (admits enough)

theorem readAt_receiver {least : Precedence} (readable : Readable decode context expr)
    (boundary : Boundary rest) :
    readAt decode least
        ((parenthesized expr .primary (expression context expr)).plain indent ++ rest) =
      readLinks decode least (.ofExpr context expr) rest :=
  readAt_parenthesized readable (level_le_ten least) boundary fun tight =>
    admits_of_tight (by decide : 3 ≤ Precedence.primary.level) (Admits.any rest) tight

/-- A last operand is complete if what follows binds less than its place demands. -/
theorem readAt_last {place : Precedence} {level : Nat} (readable : Readable decode context expr)
    (boundary : Boundary rest) (less : level < place.level) (admits : Admits level rest) :
    readAt decode place
        ((parenthesized expr place (expression context expr)).plain indent ++ rest) =
      some (.ofExpr context expr, rest) := by
  rw [readAt_parenthesized readable (Nat.le_refl _) boundary (admits_of_loose less admits)]
  exact readLinks_of_admits _ admits less

/-- A branch is complete under the same condition. If it throws, a choice may still follow. -/
theorem readAt_branch {place : Precedence} {level : Nat} (readable : Readable decode context expr)
    (boundary : Boundary rest) (low : level ≤ 1) (less : level < place.level)
    (admits : Admits level rest) :
    readAt decode place ((branched expr place (expression context expr)).plain indent ++ rest) =
      some (.ofExpr context expr, rest) := by
  unfold branched
  split
  next raises =>
    have opens : place.level ≤ opening expr := by
      rw [opening, if_pos raises]
      exact level_le_ten place
    have trails : Admits (trailing expr) rest := admits.mono (trailing_of_isRaise raises ▸ low)
    rw [readable.readsBack indent place rest opens boundary trails]
    exact readLinks_of_admits _ admits less
  next => exact readAt_last readable boundary less admits

/-- An actual argument is complete: nothing of what follows can be linked to it. -/
theorem readAt_operand (readable : Readable decode context expr) (indent : Int64)
    (boundary : Boundary rest) (last : link? rest = none) :
    readAt decode .conditional ((operand context expr).plain indent ++ rest) =
      some (.ofExpr context expr, rest) :=
  readAt_last readable boundary (by decide : 0 < 1) (.of_none last 0)

/-- No expression starts with a closing parenthesis. -/
theorem mark?_of_readAt {least : Precedence} {cs : List Char} {found : Surface × List Char}
    (readEq : readAt decode least cs = some found) : mark? ")" cs = none := by
  cases cs with
  | nil => rfl
  | cons c rest =>
    by_cases closing : c = ')'
    · subst closing
      have noHead : head? decode (')' :: rest) = none := rfl
      rw [readAt, readOperand, noHead] at readEq
      exact absurd readEq (by simp)
    · simp [mark?, without?, Ne.symm closing]

/-- Actual arguments are read back, up to the parenthesis that closes them. -/
theorem readArguments_operands {arguments : List Expr}
    (readable : ∀ argument ∈ arguments, Readable decode context argument) (indent : Int64)
    (rest : List Char) :
    readArguments decode
        (plainAll indent (separated ", " (operands context arguments)) ++ ')' :: rest) =
      some (Surface.ofExprs context arguments, rest) := by
  induction arguments with
  | nil => exact readArguments_nil rest
  | cons first others inductionHypothesis =>
    have firstReadable := readable first List.mem_cons_self
    have firstFirm := firm_parenthesized (firm_expression context firstReadable.named indent) first
      .conditional
    cases others with
    | nil =>
      have firstEq := readAt_operand firstReadable indent (boundary_closing rest) rfl
      simp only [operands, separated, plainAll, List.append_nil]
      exact readArguments_last (mark?_of_readAt firstEq) firstEq
        (length_lt_append firstFirm.endsFirm.ne_nil _)
    | cons second others =>
      have othersEq := inductionHypothesis fun argument listed =>
        readable argument (List.mem_cons_of_mem _ listed)
      have firstEq := readAt_operand firstReadable indent
        (boundary_separator (' ' :: (plainAll indent (separated ", " (operands context
          (second :: others))) ++ ')' :: rest))) rfl
      have textEq :
          plainAll indent (separated ", " (operands context (first :: second :: others))) =
            (operand context first).plain indent ++ ',' :: ' ' ::
              plainAll indent (separated ", " (operands context (second :: others))) := rfl
      rw [textEq, List.append_assoc]
      exact readArguments_cons (mark?_of_readAt firstEq) firstEq
        (length_lt_append firstFirm.endsFirm.ne_nil _) othersEq

/-- An expression that nothing is linked to is read as a whole, also without parentheses. -/
theorem readAt_whole (reads : ReadsBack decode context expr) (indent : Int64)
    (boundary : Boundary rest) (last : link? rest = none) :
    readAt decode .conditional ((expression context expr).plain indent ++ rest) =
      some (.ofExpr context expr, rest) := by
  rw [reads indent .conditional rest (one_le_opening expr) boundary (.of_none last _)]
  exact readLinks_of_admits _ (.of_none last 0) (by decide)

/-- Member assignments are read back, up to the brace that closes them. -/
theorem readInitializers_assignments {inner : Int64} {initializers : List Initializer}
    (nonempty : initializers ≠ [])
    (spelled : ∀ initializer ∈ initializers, isIdentifier initializer.member = true)
    (readable : ∀ initializer ∈ initializers, Readable decode context initializer.value) :
    readInitializers decode (plainAll inner (separated "," (assignments context initializers)) ++
        (line.plain indent ++ '\x7d' :: rest)) =
      some (Surface.ofInitializers context initializers, rest) := by
  induction initializers with
  | nil => exact absurd rfl nonempty
  | cons first others inductionHypothesis =>
    obtain ⟨member, type, value⟩ := first
    have memberNamed := spelled _ List.mem_cons_self
    have valueReadable : Readable decode context value := readable _ List.mem_cons_self
    have valueNonempty : (expression context value).plain inner ≠ [] :=
      (firm_expression context valueReadable.named inner).endsFirm.ne_nil
    have valueShorter (text : List Char) : ((expression context value).plain inner ++ text).length <
        (line.plain inner ++ (member.toList ++ (" = ".toList ++
          ((expression context value).plain inner ++ text)))).length := by
      simp
      omega
    cases others with
    | nil =>
      have valueEq := readAt_whole valueReadable.readsBack inner (boundary_line indent rest) rfl
      have closes : onNewLine? "\x7d" (line.plain indent ++ '\x7d' :: rest) = some ((), rest) := by
        rw [onNewLine?_line _ rfl]
        rfl
      have textEq : plainAll inner (separated "," (assignments context [⟨member, type, value⟩])) =
          line.plain inner ++ (member.toList ++ (" = ".toList ++
            (expression context value).plain inner)) := by
        simp [assignments, separated]
      rw [textEq, List.append_assoc, List.append_assoc, List.append_assoc]
      exact readInitializers_last (assigned?_line memberNamed _) (valueShorter _) valueEq
        (length_lt_append valueNonempty _) rfl closes
    | cons second others =>
      have othersEq := inductionHypothesis (List.cons_ne_nil _ _)
        (fun initializer listed => spelled initializer (List.mem_cons_of_mem _ listed))
        (fun initializer listed => readable initializer (List.mem_cons_of_mem _ listed))
      have valueEq := readAt_whole valueReadable.readsBack inner (boundary_separator
        (plainAll inner (separated "," (assignments context (second :: others))) ++
          (line.plain indent ++ '\x7d' :: rest))) rfl
      have textEq : plainAll inner (separated ","
          (assignments context (⟨member, type, value⟩ :: second :: others))) =
          line.plain inner ++ (member.toList ++ (" = ".toList ++
            ((expression context value).plain inner ++ ',' ::
              plainAll inner (separated "," (assignments context (second :: others)))))) := by
        obtain ⟨member, type, value⟩ := second
        simp [assignments, separated]
      rw [textEq, List.append_assoc, List.append_assoc, List.append_assoc, List.append_assoc]
      exact readInitializers_cons (assigned?_line memberNamed _) (valueShorter _) valueEq
        (length_lt_append valueNonempty _) othersEq

/-! ### Names, accesses and invocations -/

theorem readAt_name {name : String} {least : Precedence} (named : isIdentifier name = true)
    (boundary : Boundary rest) :
    readAt decode least (name.toList ++ rest) = readLinks decode least (.name name) rest := by
  have shorter := length_lt_append (endsFirm_identifier named).ne_nil rest
  exact readAt_of_operand least (readOperand_atom (head?_name named boundary) rfl shorter) shorter

private theorem accessMark_ne_nil (optional : Bool) : (accessMark optional).toList ≠ [] := by
  cases optional <;> decide

theorem readLinks_accessed {name : String} {least : Precedence} (named : isIdentifier name = true)
    (optional : Bool) (left : Surface) (other : startsWith isWordChar rest = false) :
    readLinks decode least left ((accessMark optional).toList ++ (name.toList ++ rest)) =
      readLinks decode least (.access left optional name) rest := by
  have markPos := List.length_pos_of_ne_nil (accessMark_ne_nil optional)
  refine readLinks_access left (link?_access named other optional) ?_ (level_le_ten least)
  simp only [List.length_append]
  omega

/-- An operand that is followed by actual arguments is a call. -/
theorem readLinks_invoked {arguments : List Expr} {least : Precedence} (left : Surface)
    (readable : ∀ argument ∈ arguments, Readable decode context argument) :
    readLinks decode least left
        ((argumentList (operands context arguments)).plain indent ++ rest) =
      readLinks decode least (.invoke left (Surface.ofExprs context arguments)) rest := by
  rw [plain_argumentList]
  exact readLinks_arguments left rfl (Nat.lt_succ_self _) (level_le_ten least)
    (readArguments_operands readable indent rest) (by simp; omega)

end Source

end MappingForms
