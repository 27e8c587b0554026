import MappingForms.OptionalLinks
import MappingForms.Proofs.Objects

/-!
Contract: expanding optional links keeps what an expression evaluates to.

Owns: the evaluation of an expanded chain under the short-circuit reading, and
the law that the expansion of a tree without guards evaluates like the tree.

Expansion builds a chain from its base outwards and hands what it has built to a
continuation. The matching statement about evaluation is therefore about pairs of
continuations: one on expressions and one on values, which agree on every
expression whose own chain is not cut. What expansion has built so far is always
such an expression, because every optional link below it has become a test.
-/

set_option autoImplicit false

namespace MappingForms

def GuardFree (nodes : List Expr) : Prop :=
  ∀ receiver body type, Expr.guarded receiver body type ∉ nodes

private theorem guardFree_of_guardCount_eq_zero {expr : Expr} (none : expr.guardCount = 0) :
    GuardFree expr.nodes := by
  intro receiver body type member
  have notGuard := List.countP_eq_zero.1 none _ member
  simp at notGuard

theorem GuardFree.left {first second : List Expr} (free : GuardFree (first ++ second)) :
    GuardFree first :=
  fun receiver body type member => free receiver body type (List.mem_append_left _ member)

theorem GuardFree.right {first second : List Expr} (free : GuardFree (first ++ second)) :
    GuardFree second :=
  fun receiver body type member => free receiver body type (List.mem_append_right _ member)

theorem GuardFree.tail {node : Expr} {rest : List Expr} (free : GuardFree (node :: rest)) :
    GuardFree rest :=
  fun receiver body type member => free receiver body type (List.mem_cons_of_mem _ member)

namespace ChainOutcome

variable {Value : Type}

/-- The result of a chain whose remaining links are given as a function of its value. -/
def andThen (null : Value) (outcome : ChainOutcome Value) (next : Value → Option Value) :
    Option Value :=
  match outcome with
  | failed => none
  | cut => some null
  | value result => next result

private theorem andThen_some (null : Value) (outcome : ChainOutcome Value) :
    outcome.andThen null some = outcome.result null := by
  cases outcome <;> rfl

end ChainOutcome

namespace Interpretation

variable {Value : Type} (interpretation : Interpretation Value)

/-- A continuation on expressions agrees with a continuation on values. -/
structure Continues (environment : Environment Value) (continuation : Expr → Expr)
    (next : Value → Option Value) : Prop where
  onValue :
    ∀ current value,
      interpretation.chain .shortCircuit environment current = .value value →
        interpretation.evaluate .shortCircuit environment (continuation current) = next value
  onFailure :
    ∀ current,
      interpretation.chain .shortCircuit environment current = .failed →
        interpretation.evaluate .shortCircuit environment (continuation current) = none

variable {interpretation} {environment : Environment Value} {continuation : Expr → Expr}
  {next : Value → Option Value}

private theorem continues_id : interpretation.Continues environment id some where
  onValue current value reached := by
    simp [evaluate, reached, ChainOutcome.result]
  onFailure current reached := by
    simp [evaluate, reached, ChainOutcome.result]

/-- At the base of a chain nothing has been cut yet. -/
theorem Continues.atBase (continues : interpretation.Continues environment continuation next)
    {base : Expr} {outcome : Option Value}
    (reached : interpretation.chain .shortCircuit environment base = .ofResult outcome) :
    interpretation.evaluate .shortCircuit environment (continuation base) =
      (ChainOutcome.ofResult outcome).andThen interpretation.null next := by
  cases outcome with
  | none => exact continues.onFailure base reached
  | some value => exact continues.onValue base value reached

/-- A test for null in front of an access: null becomes the null of the chain, and any
other value is handed on. -/
theorem evaluate_testedAccess {current access : Expr} {nullType : TypeRef} {value : Value}
    (reached : interpretation.chain .shortCircuit environment current = .value value) :
    interpretation.evaluate .shortCircuit environment
        (Expr.testedAccess true nullType current access) =
      if interpretation.isNull value then some interpretation.null
      else interpretation.evaluate .shortCircuit environment access := by
  have evaluated : interpretation.evaluate .shortCircuit environment current = some value := by
    rw [evaluate, reached, ChainOutcome.result_value]
  rw [Expr.testedAccess, if_pos rfl, evaluate_conditional,
    evaluate_notNullCheck _ _ evaluated, evaluate_literal, interpretation.literal_typedNull]
  simp only [choose, Option.bind_some, interpretation.truth_ofBool]
  cases interpretation.isNull value <;> rfl

/-- A test for null fails with what it tests. -/
theorem evaluate_testedAccess_failed {current access : Expr} {nullType : TypeRef}
    (reached : interpretation.chain .shortCircuit environment current = .failed) :
    interpretation.evaluate .shortCircuit environment
        (Expr.testedAccess true nullType current access) = none := by
  have failed : interpretation.evaluate .shortCircuit environment current = none := by
    rw [evaluate, reached, ChainOutcome.result_failed]
  rw [Expr.testedAccess, if_pos rfl, evaluate_conditional, Expr.notNullCheck, evaluate_binary,
    failed, interpretation.binary_failed]
  rfl

/-- One more link in front of a continuation. The link is rebuilt as a plain one behind
its test, and the value of the link is what the rest of the chain is given. -/
theorem Continues.link (continues : interpretation.Continues environment continuation next)
    (optional : Bool) (nullType : TypeRef) {build : Expr → Expr}
    {access : Value → Option Value}
    (built : ∀ current,
      interpretation.chain .shortCircuit environment (build current) =
        interpretation.link .shortCircuit false
          (interpretation.chain .shortCircuit environment current) access) :
    interpretation.Continues environment
      (fun current => Expr.testedAccess optional nullType current (continuation (build current)))
      (fun value =>
        (interpretation.link .shortCircuit optional (.value value) access).andThen
          interpretation.null next) where
  onValue current value reached := by
    have accessed := built current
    rw [reached] at accessed
    cases optional with
    | false =>
      show interpretation.evaluate .shortCircuit environment (continuation (build current)) = _
      by_cases absent : interpretation.isNull value
      · simp only [Interpretation.link, absent, if_true, Bool.false_and] at accessed ⊢
        exact continues.onFailure _ accessed
      · simp only [Interpretation.link, absent] at accessed ⊢
        exact continues.atBase accessed
    | true =>
      rw [evaluate_testedAccess reached]
      by_cases absent : interpretation.isNull value
      · simp [Interpretation.link, absent, ChainOutcome.andThen]
      · simp only [Interpretation.link, absent] at accessed ⊢
        exact continues.atBase accessed
  onFailure current reached := by
    cases optional with
    | false =>
      refine continues.onFailure _ ?_
      rw [built current, reached]
      rfl
    | true => exact evaluate_testedAccess_failed reached

private theorem andThen_link (optional : Bool) (receiver : ChainOutcome Value)
    (access : Value → Option Value) (next : Value → Option Value) :
    (interpretation.link .shortCircuit optional receiver access).andThen
        interpretation.null next =
      receiver.andThen interpretation.null fun value =>
        (interpretation.link .shortCircuit optional (.value value) access).andThen
          interpretation.null next := by
  cases receiver <;> rfl

/-- An expression that continues with nothing is the end of its own chain. -/
theorem result_of_evaluate_andThen {expr expanded : Expr}
    (expandedEq : interpretation.evaluate .shortCircuit environment expanded =
      (interpretation.chain .shortCircuit environment expr).andThen interpretation.null some) :
    (interpretation.chain .shortCircuit environment expanded).result interpretation.null =
      (interpretation.chain .shortCircuit environment expr).result interpretation.null := by
  rw [ChainOutcome.andThen_some] at expandedEq
  exact expandedEq

variable (interpretation) (expansion : Expr.LinkExpansion)

mutual

/-- The expansion of a chain evaluates to what the chain and the rest of it evaluate to. -/
theorem evaluate_expandChain :
    ∀ (expr : Expr), GuardFree expr.nodes →
      ∀ (environment : Environment Value) (nullType : TypeRef) (continuation : Expr → Expr)
        (next : Value → Option Value),
        interpretation.Continues environment continuation next →
          interpretation.evaluate .shortCircuit environment
              (expr.expandChain expansion nullType continuation) =
            (interpretation.chain .shortCircuit environment expr).andThen
              interpretation.null next
  | .literal value type, _, environment, _, continuation, _, continues => by
    rw [Expr.expandChain]
    exact continues.onValue _ _ rfl
  | .parameter name type, _, environment, _, continuation, _, continues => by
    rw [Expr.expandChain]
    exact continues.atBase rfl
  | .member receiver name optional type, free, environment, nullType, continuation, next,
      continues => by
    rw [Expr.expandChain, evaluate_expandChain receiver free.tail environment nullType _ _
      (continues.link optional nullType fun current => by rw [chain]), chain, andThen_link]
  | .call target style none arguments optional type, free, environment, _, continuation, _,
      continues => by
    have argumentsEq :=
      evaluateAll_expandAll arguments (by simpa [Expr.nodes] using free.tail) environment
    rw [Expr.expandChain, chain]
    refine continues.atBase ?_
    rw [chain, argumentsEq]
  | .call target style (some receiver) arguments optional type, free, environment, nullType,
      continuation, next, continues => by
    have parts : GuardFree (receiver.nodes ++ Expr.nodesOfAll arguments) := free.tail
    have argumentsEq := evaluateAll_expandAll arguments parts.right environment
    rw [Expr.expandChain, evaluate_expandChain receiver parts.left environment nullType _ _
      (continues.link optional nullType fun current => by rw [chain]), chain, andThen_link,
      argumentsEq]
  | .construct type arguments initializers, free, environment, _, continuation, _,
      continues => by
    have parts :
        GuardFree (Expr.nodesOfAll arguments ++ Expr.nodesOfInitializers initializers) :=
      free.tail
    rw [Expr.expandChain, chain]
    refine continues.atBase ?_
    rw [chain, evaluateAll_expandAll arguments parts.left environment,
      evaluateInitializers_expandInitializers initializers parts.right environment]
  | .conditional condition whenTrue whenFalse type, free, environment, _, continuation, _,
      continues => by
    have parts : GuardFree (condition.nodes ++ (whenTrue.nodes ++ whenFalse.nodes)) := free.tail
    rw [Expr.expandChain, chain]
    refine continues.atBase ?_
    rw [chain, result_of_evaluate_andThen
        (evaluate_expandChain condition parts.left environment _ id some continues_id),
      result_of_evaluate_andThen
        (evaluate_expandChain whenTrue parts.right.left environment _ id some continues_id),
      result_of_evaluate_andThen
        (evaluate_expandChain whenFalse parts.right.right environment _ id some continues_id)]
  | .coalesce left right type, free, environment, _, continuation, _, continues => by
    have parts : GuardFree (left.nodes ++ right.nodes) := free.tail
    rw [Expr.expandChain, chain]
    refine continues.atBase ?_
    rw [chain, result_of_evaluate_andThen
        (evaluate_expandChain left parts.left environment _ id some continues_id),
      result_of_evaluate_andThen
        (evaluate_expandChain right parts.right environment _ id some continues_id)]
  | .binary op left right type, free, environment, _, continuation, _, continues => by
    have parts : GuardFree (left.nodes ++ right.nodes) := free.tail
    rw [Expr.expandChain, chain]
    refine continues.atBase ?_
    rw [chain, result_of_evaluate_andThen
        (evaluate_expandChain left parts.left environment _ id some continues_id),
      result_of_evaluate_andThen
        (evaluate_expandChain right parts.right environment _ id some continues_id)]
  | .raise exception type, _, environment, _, continuation, _, continues => by
    rw [Expr.expandChain]
    exact continues.onFailure _ rfl
  | .projection source element transform materialize type, free, environment, nullType,
      continuation, next, continues => by
    have parts : GuardFree (source.nodes ++ transform.nodes) := free.tail
    have transformEq (item : Value) :=
      result_of_evaluate_andThen
        (evaluate_expandChain transform parts.right (environment.bind element item)
          (transform.type.lifted expansion.context) id some continues_id)
    rw [Expr.expandChain]
    refine (evaluate_expandChain source parts.left environment nullType _ _
      (continues.link false nullType fun current => by rw [chain])).trans ?_
    simp only [transformEq]
    rw [chain, andThen_link]
  | .guarded receiver body type, free, _, _, _, _, _ =>
    absurd List.mem_cons_self (free receiver body type)
termination_by structural expr => expr

private theorem evaluateAll_expandAll :
    ∀ (exprs : List Expr), GuardFree (Expr.nodesOfAll exprs) →
      ∀ environment : Environment Value,
        interpretation.evaluateAll .shortCircuit environment (Expr.expandAll expansion exprs) =
          interpretation.evaluateAll .shortCircuit environment exprs
  | [], _, _ => rfl
  | first :: rest, free, environment => by
    rw [Expr.expandAll, evaluateAll, evaluateAll,
      result_of_evaluate_andThen
        (evaluate_expandChain first free.left environment _ id some continues_id),
      evaluateAll_expandAll rest free.right environment]
termination_by structural exprs => exprs

private theorem evaluateInitializers_expandInitializers :
    ∀ (initializers : List Initializer), GuardFree (Expr.nodesOfInitializers initializers) →
      ∀ environment : Environment Value,
        interpretation.evaluateInitializers .shortCircuit environment
            (Expr.expandInitializers expansion initializers) =
          interpretation.evaluateInitializers .shortCircuit environment initializers
  | [], _, _ => rfl
  | ⟨name, _, value⟩ :: rest, free, environment => by
    rw [Expr.expandInitializers, evaluateInitializers, evaluateInitializers,
      result_of_evaluate_andThen
        (evaluate_expandChain value free.left environment _ id some continues_id),
      evaluateInitializers_expandInitializers rest free.right environment]
termination_by structural initializers => initializers

end

/-- Expanding every optional link of a tree without guards into a test for null keeps
the result of the tree, failure included. -/
theorem evaluate_resolveLinks_expand (environment : Environment Value)
    (context : NullableContext) (expr : Expr) (guardFree : expr.guardCount = 0) :
    interpretation.evaluate .shortCircuit environment (expr.resolveLinks .expand context) =
      interpretation.evaluate .shortCircuit environment expr := by
  have free : GuardFree expr.nodes := guardFree_of_guardCount_eq_zero guardFree
  show interpretation.evaluate .shortCircuit environment
    (Expr.expandToDepth context expr.guardCount expr) = _
  rw [guardFree, Expr.expandToDepth, Expr.expandWith]
  exact result_of_evaluate_andThen
    (evaluate_expandChain interpretation _ expr free environment _ id some continues_id)

/-- `s?.Home.City?.Name` -/
def nameOfHomeCity : Expr :=
  .member
    (.member
      (.member (.parameter "s" (.reference "Person")) "Home" true (.reference "Address"))
      "City" false (.reference "City"))
    "Name" true .string

/-- A person whose home has no city: the second optional link ends the chain, before and
after the expansion. -/
theorem evaluate_resolveLinks_expand_nameOfHomeCity :
    nameOfHomeCity.guardCount = 0 ∧
      (ObjectModel.plain fun _ _ => .null).evaluate
          (fun _ => some (.object (.string "Person") fun _ =>
            .object (.string "Address") fun _ => .null))
          (nameOfHomeCity.resolveLinks .expand .enabled) = some .null :=
  ⟨by decide, (evaluate_resolveLinks_expand _ _ _ nameOfHomeCity (by decide)).trans rfl⟩

end Interpretation

end MappingForms
