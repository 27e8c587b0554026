import MappingForms.Expr.Names

/-!
Contract: what an expression evaluates to.

Owns: the interpretation of the operations that expressions leave open, the
outcome of a chain of accesses, the evaluation of expressions, and the fact that
an expression reads its free names only.

A chain is evaluated from its base outwards. A plain link on null fails. At an
optional link on null the short-circuit reading ends the whole chain with null,
and the strict reading fails there as well. Every other node is a function of the
results of its parts, so values are never shared or changed.

Does not own: the representation of values. Everything here holds over any type of
values with a null.
-/

set_option autoImplicit false

namespace MappingForms

/-- The values of the parameters in scope. -/
abbrev Environment (Value : Type) := String → Option Value

namespace Environment

variable {Value : Type}

def bind (environment : Environment Value) (name : String) (value : Value) :
    Environment Value :=
  fun candidate => if candidate = name then some value else environment candidate

def single (name : String) (value : Value) : Environment Value := bind (fun _ => none) name value

@[simp]
theorem bind_same (environment : Environment Value) (name : String) (value : Value) :
    environment.bind name value name = some value := by
  simp [bind]

@[simp]
theorem single_same (name : String) (value : Value) : single name value name = some value :=
  bind_same ..

theorem bind_other (environment : Environment Value) {name other : String} (value : Value)
    (different : other ≠ name) :
    environment.bind name value other = environment other := by
  simp [bind, different]

end Environment

/-- The operations that expressions leave open. An operation without a result fails. -/
structure Interpretation (Value : Type) where
  null : Value
  isNull : Value → Bool
  isNull_iff : ∀ value, isNull value = true ↔ value = null
  ofBool : Bool → Value
  /-- The truth of a value that serves as a condition. -/
  truth : Value → Option Bool
  truth_ofBool : ∀ value, truth (ofBool value) = some value
  literal : Literal → Value
  literal_null : literal .null = null
  literal_typedNull : literal .typedNull = null
  member : Value → String → Option Value
  call : CallableId → CallStyle → Option Value → List Value → Option Value
  construct : TypeRef → List Value → List (String × Value) → Option Value
  /-- Operators are given the results of both operands, so an operator may do without
  the right one. -/
  binary : BinaryOp → Option Value → Option Value → Option Value
  binary_failed : ∀ op right, binary op none right = none
  equal_null : ∀ value, binary .equal (some value) (some null) = some (ofBool (isNull value))
  notEqual_null :
    ∀ value, binary .notEqual (some value) (some null) = some (ofBool (!isNull value))
  /-- A projection is given the meaning of its transform. -/
  project : Value → (Value → Option Value) → Option String → Option Value

/-- What becomes of an optional link whose receiver is null. -/
inductive LinkReading where
  /-- The chain ends there, with null. -/
  | shortCircuit
  /-- It fails like a plain link. -/
  | strict
deriving DecidableEq

inductive ChainOutcome (Value : Type) where
  | failed
  /-- An optional link has met null, and the rest of the chain is not evaluated. -/
  | cut
  | value (value : Value)

namespace ChainOutcome

variable {Value : Type}

def ofResult : Option Value → ChainOutcome Value
  | none => failed
  | some result => value result

/-- The result of a whole chain: a chain that was cut is null. -/
def result (null : Value) : ChainOutcome Value → Option Value
  | failed => none
  | cut => some null
  | value result => some result

@[simp]
theorem result_failed (null : Value) : (failed : ChainOutcome Value).result null = none := rfl

@[simp]
theorem result_cut (null : Value) : (cut : ChainOutcome Value).result null = some null := rfl

@[simp]
theorem result_value (null result : Value) : (value result).result null = some result := rfl

/-- A chain that ends with a result has that result. -/
@[simp]
theorem result_ofResult (null : Value) (outcome : Option Value) :
    (ofResult outcome).result null = outcome := by
  cases outcome <;> rfl

end ChainOutcome

namespace Interpretation

variable {Value : Type} (interpretation : Interpretation Value) (reading : LinkReading)

def link (optional : Bool) (receiver : ChainOutcome Value) (access : Value → Option Value) :
    ChainOutcome Value :=
  match receiver with
  | .failed => .failed
  | .cut => .cut
  | .value value =>
    if interpretation.isNull value then
      if optional && reading == .shortCircuit then .cut else .failed
    else
      .ofResult (access value)

/-- The result of a condition that is followed by one of two results. -/
def choose (condition whenTrue whenFalse : Option Value) : Option Value :=
  (condition.bind interpretation.truth).bind fun holds => if holds then whenTrue else whenFalse

/-- The result of the left operand unless it is null, and of the right one then. -/
def unlessNull (left right : Option Value) : Option Value :=
  left.bind fun value => if interpretation.isNull value then right else some value

mutual

/-- Evaluates the part of a chain that ends in this expression. -/
def chain (environment : Environment Value) : Expr → ChainOutcome Value
  | .literal value _ => .value (interpretation.literal value)
  | .parameter name _ => .ofResult (environment name)
  | .member receiver name optional _ =>
    interpretation.link reading optional (chain environment receiver) fun value =>
      interpretation.member value name
  | .call target style receiver arguments optional _ =>
    let apply (receiver : Option Value) :=
      (evaluateAll environment arguments).bind (interpretation.call target style receiver)
    match receiver with
    | none => .ofResult (apply none)
    | some receiver =>
      interpretation.link reading optional (chain environment receiver) fun value =>
        apply (some value)
  | .construct type arguments initializers =>
    .ofResult <|
      (evaluateAll environment arguments).bind fun values =>
        (evaluateInitializers environment initializers).bind
          (interpretation.construct type values)
  | .conditional condition whenTrue whenFalse _ =>
    .ofResult <|
      interpretation.choose ((chain environment condition).result interpretation.null)
        ((chain environment whenTrue).result interpretation.null)
        ((chain environment whenFalse).result interpretation.null)
  | .coalesce left right _ =>
    .ofResult <|
      interpretation.unlessNull ((chain environment left).result interpretation.null)
        ((chain environment right).result interpretation.null)
  | .binary op left right _ =>
    .ofResult <|
      interpretation.binary op ((chain environment left).result interpretation.null)
        ((chain environment right).result interpretation.null)
  | .raise _ _ => .failed
  | .projection source element transform materialize _ =>
    interpretation.link reading false (chain environment source) fun value =>
      interpretation.project value
        (fun item =>
          (chain (environment.bind element item) transform).result interpretation.null)
        materialize
  | .guarded receiver body _ =>
    interpretation.link reading true (chain environment receiver) fun _ =>
      (chain environment body).result interpretation.null
termination_by structural expr => expr

/-- Evaluates expressions from left to right, each as a chain of its own. -/
def evaluateAll (environment : Environment Value) : List Expr → Option (List Value)
  | [] => some []
  | first :: rest =>
    ((chain environment first).result interpretation.null).bind fun value =>
      (evaluateAll environment rest).map (value :: ·)
termination_by structural exprs => exprs

@[inherit_doc evaluateAll]
def evaluateInitializers (environment : Environment Value) :
    List Initializer → Option (List (String × Value))
  | [] => some []
  | ⟨name, _, value⟩ :: rest =>
    ((chain environment value).result interpretation.null).bind fun value =>
      (evaluateInitializers environment rest).map ((name, value) :: ·)
termination_by structural initializers => initializers

end

/-- Evaluates an expression, which is the end of its own chain. -/
def evaluate (environment : Environment Value) (expr : Expr) : Option Value :=
  (interpretation.chain reading environment expr).result interpretation.null

section Equations

variable (environment : Environment Value)

@[simp]
theorem evaluate_literal (value : Literal) (type : TypeRef) :
    interpretation.evaluate reading environment (.literal value type) =
      some (interpretation.literal value) :=
  rfl

@[simp]
theorem evaluate_parameter (name : String) (type : TypeRef) :
    interpretation.evaluate reading environment (.parameter name type) = environment name :=
  ChainOutcome.result_ofResult _ _

@[simp]
theorem evaluate_construct (type : TypeRef) (arguments : List Expr)
    (initializers : List Initializer) :
    interpretation.evaluate reading environment (.construct type arguments initializers) =
      (interpretation.evaluateAll reading environment arguments).bind fun values =>
        (interpretation.evaluateInitializers reading environment initializers).bind
          (interpretation.construct type values) :=
  ChainOutcome.result_ofResult _ _

@[simp]
theorem evaluate_conditional (condition whenTrue whenFalse : Expr) (type : TypeRef) :
    interpretation.evaluate reading environment
        (.conditional condition whenTrue whenFalse type) =
      interpretation.choose (interpretation.evaluate reading environment condition)
        (interpretation.evaluate reading environment whenTrue)
        (interpretation.evaluate reading environment whenFalse) :=
  ChainOutcome.result_ofResult _ _

@[simp]
theorem evaluate_binary (op : BinaryOp) (left right : Expr) (type : TypeRef) :
    interpretation.evaluate reading environment (.binary op left right type) =
      interpretation.binary op (interpretation.evaluate reading environment left)
        (interpretation.evaluate reading environment right) :=
  ChainOutcome.result_ofResult _ _

@[simp]
theorem evaluate_raise (exception : Expr) (type : TypeRef) :
    interpretation.evaluate reading environment (.raise exception type) = none :=
  rfl

variable {environment}

/-- A test for null evaluates to whether the value is null. -/
theorem evaluate_isNullCheck {expr : Expr} {value : Value}
    (evaluated : interpretation.evaluate reading environment expr = some value) :
    interpretation.evaluate reading environment expr.isNullCheck =
      some (interpretation.ofBool (interpretation.isNull value)) := by
  rw [Expr.isNullCheck, evaluate_binary, evaluated, Expr.nullLike, evaluate_literal,
    interpretation.literal_null, interpretation.equal_null]

/-- A test against null evaluates to whether the value is not null. -/
theorem evaluate_notNullCheck {expr : Expr} {value : Value}
    (evaluated : interpretation.evaluate reading environment expr = some value) :
    interpretation.evaluate reading environment expr.notNullCheck =
      some (interpretation.ofBool (!interpretation.isNull value)) := by
  rw [Expr.notNullCheck, evaluate_binary, evaluated, Expr.nullLike, evaluate_literal,
    interpretation.literal_null, interpretation.notEqual_null]

end Equations

/-! ## Free names -/

mutual

/-- A chain reads the free names of its expression only. -/
theorem chain_congr :
    ∀ (expr : Expr) {left right : Environment Value},
      (∀ name ∈ expr.freeNames, left name = right name) →
        interpretation.chain reading left expr = interpretation.chain reading right expr
  | .literal .., _, _, _ => rfl
  | .parameter name _, _, _, agree => by
    simp only [chain]
    rw [agree name (by simp [Expr.freeNames])]
  | .member receiver _ _ _, _, _, agree => by
    simp only [chain]
    rw [chain_congr receiver agree]
  | .call _ _ none arguments _ _, _, _, agree => by
    simp only [chain]
    rw [evaluateAll_congr arguments (by simpa [Expr.freeNames] using agree)]
  | .call _ _ (some receiver) arguments _ _, _, _, agree => by
    simp only [Expr.freeNames, List.mem_append] at agree
    simp only [chain]
    rw [chain_congr receiver fun name free => agree name (.inl free),
      evaluateAll_congr arguments fun name free => agree name (.inr free)]
  | .construct _ arguments initializers, _, _, agree => by
    simp only [Expr.freeNames, List.mem_append] at agree
    simp only [chain]
    rw [evaluateAll_congr arguments fun name free => agree name (.inl free),
      evaluateInitializers_congr initializers fun name free => agree name (.inr free)]
  | .conditional condition whenTrue whenFalse _, _, _, agree => by
    simp only [Expr.freeNames, List.mem_append] at agree
    simp only [chain]
    rw [chain_congr condition fun name free => agree name (.inl free),
      chain_congr whenTrue fun name free => agree name (.inr (.inl free)),
      chain_congr whenFalse fun name free => agree name (.inr (.inr free))]
  | .coalesce leftOperand rightOperand _, _, _, agree => by
    simp only [Expr.freeNames, List.mem_append] at agree
    simp only [chain]
    rw [chain_congr leftOperand fun name free => agree name (.inl free),
      chain_congr rightOperand fun name free => agree name (.inr free)]
  | .binary _ leftOperand rightOperand _, _, _, agree => by
    simp only [Expr.freeNames, List.mem_append] at agree
    simp only [chain]
    rw [chain_congr leftOperand fun name free => agree name (.inl free),
      chain_congr rightOperand fun name free => agree name (.inr free)]
  | .raise .., _, _, _ => rfl
  | .projection source element transform _ _, left, right, agree => by
    simp only [Expr.freeNames, List.mem_append, List.mem_filter] at agree
    have transformAgrees (item : Value) :
        ∀ name ∈ transform.freeNames,
          left.bind element item name = right.bind element item name := by
      intro name free
      by_cases bound : name = element
      · rw [bound, Environment.bind_same, Environment.bind_same]
      · rw [Environment.bind_other _ _ bound, Environment.bind_other _ _ bound]
        exact agree name (.inr ⟨free, by simpa using bound⟩)
    have transformEq (item : Value) := chain_congr transform (transformAgrees item)
    simp only [chain, transformEq]
    rw [chain_congr source fun name free => agree name (.inl free)]
  | .guarded receiver body _, _, _, agree => by
    simp only [Expr.freeNames, List.mem_append] at agree
    simp only [chain]
    rw [chain_congr receiver fun name free => agree name (.inl free),
      chain_congr body fun name free => agree name (.inr free)]
termination_by structural expr => expr

private theorem evaluateAll_congr :
    ∀ (exprs : List Expr) {left right : Environment Value},
      (∀ name ∈ Expr.freeNamesOfAll exprs, left name = right name) →
        interpretation.evaluateAll reading left exprs =
          interpretation.evaluateAll reading right exprs
  | [], _, _, _ => rfl
  | first :: rest, _, _, agree => by
    simp only [Expr.freeNamesOfAll, List.mem_append] at agree
    simp only [evaluateAll]
    rw [chain_congr first fun name free => agree name (.inl free),
      evaluateAll_congr rest fun name free => agree name (.inr free)]
termination_by structural exprs => exprs

private theorem evaluateInitializers_congr :
    ∀ (initializers : List Initializer) {left right : Environment Value},
      (∀ name ∈ Expr.freeNamesOfInitializers initializers, left name = right name) →
        interpretation.evaluateInitializers reading left initializers =
          interpretation.evaluateInitializers reading right initializers
  | [], _, _, _ => rfl
  | ⟨_, _, value⟩ :: rest, _, _, agree => by
    simp only [Expr.freeNamesOfInitializers, List.mem_append] at agree
    simp only [evaluateInitializers]
    rw [chain_congr value fun name free => agree name (.inl free),
      evaluateInitializers_congr rest fun name free => agree name (.inr free)]
termination_by structural initializers => initializers

end

/-- An expression reads its free names only. -/
theorem evaluate_congr {left right : Environment Value} {expr : Expr}
    (agree : ∀ name ∈ expr.freeNames, left name = right name) :
    interpretation.evaluate reading left expr = interpretation.evaluate reading right expr := by
  unfold evaluate
  rw [interpretation.chain_congr reading expr agree]

end Interpretation

end MappingForms
