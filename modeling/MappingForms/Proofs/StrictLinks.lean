import MappingForms.Proofs.LinkResolution
import MappingForms.Proofs.Objects

/-!
Contract: ignoring optional links is right wherever nothing is null.

Owns: the interpretations whose operations skip parts, the order of outcomes in which a failure
may become a value, and the law that a value of the strict reading is kept when optional links
are ignored.

Under the strict reading an optional link on null fails, and so does a guard on null, so no chain
is cut. An expression can have a value although a part of it fails, if this part is skipped: a
branch of a condition, the right side of a coalescing or of an operator, or the transform for an
item that is not asked for. Without guards a part that failed may have a value. The outcomes of
the parts are therefore not the same with and without optional links, only their values are kept.
-/

set_option autoImplicit false

namespace MappingForms

/-- An interpretation whose operations do without a part only by skipping it: with a result in
spite of a failed part, the result is the same whatever this part gives. Evaluation part by part
is of this kind, because it fails with the first part that it needs and that fails. An operation
that could tell a failed part from a skipped one would also tell a guard from its body. -/
structure LazyInterpretation (Value : Type) extends Interpretation Value where
  binary_skips : ∀ op left result, binary op left none = some result →
    ∀ right, binary op left (some right) = some result
  project_skips : ∀ source transform other materialize result,
    (∀ item value, transform item = some value → other item = some value) →
      project source transform materialize = some result →
        project source other materialize = some result

/-! ## Kept values -/

/-- Where there was a value, there is the same value. -/
def ResultKept {α : Type} (before after : Option α) : Prop :=
  ∀ value, before = some value → after = some value

namespace ResultKept

variable {α β : Type}

theorem refl (result : Option α) : ResultKept result result := fun _ reached => reached

/-- What is kept of a result is kept of what follows from it. -/
theorem bind {before after : Option α} {next others : α → Option β}
    (kept : ResultKept before after) (keptNext : ∀ value, ResultKept (next value) (others value)) :
    ResultKept (before.bind next) (after.bind others) := by
  intro result reached
  obtain ⟨value, beforeEq, nextEq⟩ := Option.bind_eq_some_iff.1 reached
  rw [kept value beforeEq, Option.bind_some, keptNext value result nextEq]

theorem map {before after : Option α} (change : α → β) (kept : ResultKept before after) :
    ResultKept (before.map change) (after.map change) := by
  intro result reached
  obtain ⟨value, beforeEq, rfl⟩ := Option.map_eq_some_iff.1 reached
  rw [kept value beforeEq, Option.map_some]

end ResultKept

namespace ChainOutcome

variable {Value : Type}

private theorem ofResult_eq_value_iff {outcome : Option Value} {found : Value} :
    ofResult outcome = value found ↔ outcome = some found := by
  cases outcome <;> simp [ofResult]

private theorem ofResult_ne_cut (outcome : Option Value) : ofResult outcome ≠ cut := by
  cases outcome <;> simp [ofResult]

/-- Where a chain had a value, it has the same value. -/
def Kept (before after : ChainOutcome Value) : Prop :=
  ∀ found, before = value found → after = value found

theorem Kept.ofResult {before after : Option Value} (kept : ResultKept before after) :
    Kept (.ofResult before) (.ofResult after) :=
  fun found reached => ofResult_eq_value_iff.2 (kept found (ofResult_eq_value_iff.1 reached))

end ChainOutcome

namespace Interpretation

variable {Value : Type} (interpretation : Interpretation Value)

/-! ## Strict chains -/

private theorem link_eq_value {reading : LinkReading} {optional : Bool}
    {receiver : ChainOutcome Value} {access : Value → Option Value} {result : Value}
    (reached : interpretation.link reading optional receiver access = .value result) :
    ∃ value, receiver = .value value ∧ interpretation.isNull value = false ∧
      access value = some result := by
  cases receiver with
  | failed => cases reached
  | cut => cases reached
  | value value =>
    rw [link] at reached
    cases absent : interpretation.isNull value with
    | true =>
      rw [if_pos absent] at reached
      split at reached <;> cases reached
    | false =>
      rw [absent, if_neg Bool.false_ne_true] at reached
      exact ⟨value, rfl, absent, ChainOutcome.ofResult_eq_value_iff.1 reached⟩

/-- A value that a link has is kept if the value of its receiver and that of the access are, also
by a link that is not optional. -/
theorem kept_link (reading other : LinkReading) (optional : Bool)
    {before after : ChainOutcome Value} {access others : Value → Option Value}
    (kept : before.Kept after) (keptAccess : ∀ value, ResultKept (access value) (others value)) :
    (interpretation.link reading optional before access).Kept
      (interpretation.link other false after others) := by
  intro result reached
  obtain ⟨value, beforeEq, present, accessed⟩ := interpretation.link_eq_value reached
  rw [kept value beforeEq, link, present, if_neg Bool.false_ne_true,
    keptAccess value result accessed]
  rfl

private theorem link_strict_ne_cut {receiver : ChainOutcome Value} (uncut : receiver ≠ .cut)
    (optional : Bool) (access : Value → Option Value) :
    interpretation.link .strict optional receiver access ≠ .cut := by
  have notShort : (LinkReading.strict == .shortCircuit) = false := rfl
  cases receiver with
  | failed => exact uncut
  | cut => exact absurd rfl uncut
  | value value =>
    rw [link, notShort, Bool.and_false, if_neg Bool.false_ne_true]
    split
    · intro impossible
      cases impossible
    · exact ChainOutcome.ofResult_ne_cut _

/-- The strict reading ends no chain early. -/
theorem chain_strict_ne_cut (environment : Environment Value) (expr : Expr) :
    interpretation.chain .strict environment expr ≠ .cut := by
  induction expr using Expr.induction_on_children with
  | step expr inductionHypothesis =>
    cases expr with
    | literal value type => intro impossible; cases impossible
    | raise exception type => intro impossible; cases impossible
    | member receiver name optional type =>
      exact interpretation.link_strict_ne_cut (inductionHypothesis receiver List.mem_cons_self) _ _
    | call target style receiver arguments optional type =>
      cases receiver with
      | none => exact ChainOutcome.ofResult_ne_cut _
      | some receiver =>
        exact interpretation.link_strict_ne_cut
          (inductionHypothesis receiver List.mem_cons_self) _ _
    | projection source element transform materialize type =>
      exact interpretation.link_strict_ne_cut (inductionHypothesis source List.mem_cons_self) _ _
    | guarded receiver body type =>
      exact interpretation.link_strict_ne_cut (inductionHypothesis receiver List.mem_cons_self) _ _
    | _ => exact ChainOutcome.ofResult_ne_cut _

/-- A result under the strict reading is the value of the chain. -/
theorem chain_strict_of_result {environment : Environment Value} {expr : Expr} {found : Value}
    (reached : (interpretation.chain .strict environment expr).result interpretation.null =
      some found) :
    interpretation.chain .strict environment expr = .value found := by
  cases outcome : interpretation.chain .strict environment expr with
  | failed =>
    rw [outcome] at reached
    cases reached
  | cut => exact absurd outcome (interpretation.chain_strict_ne_cut environment expr)
  | value value =>
    rw [outcome] at reached
    exact congrArg ChainOutcome.value (Option.some.inj reached)

private theorem kept_result {environment : Environment Value} {expr : Expr}
    {after : ChainOutcome Value}
    (kept : (interpretation.chain .strict environment expr).Kept after) :
    ResultKept ((interpretation.chain .strict environment expr).result interpretation.null)
      (after.result interpretation.null) := by
  intro found reached
  rw [kept found (interpretation.chain_strict_of_result reached), ChainOutcome.result_value]

/-! ## Operations -/

private theorem kept_choose
    {condition conditions whenTrue whenTrues whenFalse whenFalses : Option Value}
    (keptCondition : ResultKept condition conditions) (keptTrue : ResultKept whenTrue whenTrues)
    (keptFalse : ResultKept whenFalse whenFalses) :
    ResultKept (interpretation.choose condition whenTrue whenFalse)
      (interpretation.choose conditions whenTrues whenFalses) := by
  refine (keptCondition.bind fun value => .refl _).bind fun holds => ?_
  cases holds with
  | true => exact keptTrue
  | false => exact keptFalse

private theorem kept_unlessNull {left lefts right rights : Option Value}
    (keptLeft : ResultKept left lefts) (keptRight : ResultKept right rights) :
    ResultKept (interpretation.unlessNull left right)
      (interpretation.unlessNull lefts rights) := by
  refine keptLeft.bind fun value => ?_
  cases interpretation.isNull value with
  | true => exact keptRight
  | false => exact .refl _

end Interpretation

namespace LazyInterpretation

variable {Value : Type} (interpretation : LazyInterpretation Value) (reading : LinkReading)

private theorem kept_binary (op : BinaryOp) {left lefts right rights : Option Value}
    (keptLeft : ResultKept left lefts) (keptRight : ResultKept right rights) :
    ResultKept (interpretation.binary op left right) (interpretation.binary op lefts rights) := by
  intro result reached
  cases left with
  | none =>
    rw [interpretation.binary_failed] at reached
    cases reached
  | some value =>
    rw [keptLeft value rfl]
    cases right with
    | some operand =>
      rw [keptRight operand rfl]
      exact reached
    | none =>
      cases rights with
      | none => exact reached
      | some operand => exact interpretation.binary_skips op _ result reached operand

-- The induction follows the recursion of `ignoreLinks`. It is over all environments at once,
-- because a transform is evaluated with its element bound.
mutual

/-- A value that a chain has under the strict reading is kept when its links are ignored. -/
theorem kept_chain_ignoreLinks :
    ∀ (expr : Expr) (environment : Environment Value),
      (interpretation.chain .strict environment expr).Kept
        (interpretation.chain reading environment expr.ignoreLinks)
  | .literal value type, environment => fun _ reached => reached
  | .parameter name type, environment => fun _ reached => reached
  | .member receiver name optional type, environment => by
    rw [Expr.ignoreLinks, Interpretation.chain, Interpretation.chain]
    exact interpretation.kept_link _ _ _ (kept_chain_ignoreLinks receiver environment)
      fun _ => .refl _
  | .call target style none arguments optional type, environment => by
    rw [Expr.ignoreLinks, Interpretation.chain, Interpretation.chain]
    exact .ofResult ((kept_evaluateAll arguments environment).bind fun _ => .refl _)
  | .call target style (some receiver) arguments optional type, environment => by
    rw [Expr.ignoreLinks, Interpretation.chain, Interpretation.chain]
    exact interpretation.kept_link _ _ _ (kept_chain_ignoreLinks receiver environment)
      fun _ => (kept_evaluateAll arguments environment).bind fun _ => .refl _
  | .construct type arguments initializers, environment => by
    rw [Expr.ignoreLinks, Interpretation.chain, Interpretation.chain]
    exact .ofResult ((kept_evaluateAll arguments environment).bind fun _ =>
      (kept_evaluateInitializers initializers environment).bind fun _ => .refl _)
  | .conditional condition whenTrue whenFalse type, environment => by
    rw [Expr.ignoreLinks, Interpretation.chain, Interpretation.chain]
    exact .ofResult (interpretation.kept_choose
      (interpretation.kept_result (kept_chain_ignoreLinks condition environment))
      (interpretation.kept_result (kept_chain_ignoreLinks whenTrue environment))
      (interpretation.kept_result (kept_chain_ignoreLinks whenFalse environment)))
  | .coalesce left right type, environment => by
    rw [Expr.ignoreLinks, Interpretation.chain, Interpretation.chain]
    exact .ofResult (interpretation.kept_unlessNull
      (interpretation.kept_result (kept_chain_ignoreLinks left environment))
      (interpretation.kept_result (kept_chain_ignoreLinks right environment)))
  | .binary op left right type, environment => by
    rw [Expr.ignoreLinks, Interpretation.chain, Interpretation.chain]
    exact .ofResult (interpretation.kept_binary op
      (interpretation.kept_result (kept_chain_ignoreLinks left environment))
      (interpretation.kept_result (kept_chain_ignoreLinks right environment)))
  | .raise exception type, environment => fun _ reached => by cases reached
  | .projection source element transform materialize type, environment => by
    rw [Expr.ignoreLinks, Interpretation.chain, Interpretation.chain]
    refine interpretation.kept_link _ _ _ (kept_chain_ignoreLinks source environment)
      fun value result projected => ?_
    exact interpretation.project_skips value _ _ materialize result (fun item =>
      interpretation.kept_result (kept_chain_ignoreLinks transform (environment.bind element item)))
      projected
  | .guarded receiver body type, environment => fun result reached => by
    -- The guard has been passed, so its value is the value of the body.
    rw [Interpretation.chain] at reached
    obtain ⟨-, -, -, evaluated⟩ := interpretation.link_eq_value reached
    exact kept_chain_ignoreLinks body environment result
      (interpretation.chain_strict_of_result evaluated)
termination_by structural expr => expr

private theorem kept_evaluateAll :
    ∀ (exprs : List Expr) (environment : Environment Value),
      ResultKept (interpretation.evaluateAll .strict environment exprs)
        (interpretation.evaluateAll reading environment (Expr.ignoreLinksOfAll exprs))
  | [], _ => .refl _
  | first :: rest, environment => by
    rw [Expr.ignoreLinksOfAll, Interpretation.evaluateAll, Interpretation.evaluateAll]
    exact (interpretation.kept_result (kept_chain_ignoreLinks first environment)).bind fun _ =>
      (kept_evaluateAll rest environment).map _
termination_by structural exprs => exprs

private theorem kept_evaluateInitializers :
    ∀ (initializers : List Initializer) (environment : Environment Value),
      ResultKept (interpretation.evaluateInitializers .strict environment initializers)
        (interpretation.evaluateInitializers reading environment
          (Expr.ignoreLinksOfInitializers initializers))
  | [], _ => .refl _
  | ⟨name, _, value⟩ :: rest, environment => by
    rw [Expr.ignoreLinksOfInitializers, Interpretation.evaluateInitializers,
      Interpretation.evaluateInitializers]
    exact (interpretation.kept_result (kept_chain_ignoreLinks value environment)).bind fun _ =>
      (kept_evaluateInitializers rest environment).map _
termination_by structural initializers => initializers

end

/-- Ignoring optional links is right wherever nothing is null.

If an expression has a value under the strict reading, for which a null at an optional link or at
a guard is a failure, then it has the same value without its optional links and guards. What is
left is evaluated without optional links, so it does not matter how those are read. -/
theorem evaluate_resolveLinks_ignore (environment : Environment Value) (context : NullableContext)
    (expr : Expr) (value : Value)
    (evaluated : interpretation.evaluate .strict environment expr = some value) :
    (expr.resolveLinks .ignore context).containsOptionalLink = false ∧
      ∀ reading, interpretation.evaluate reading environment
        (expr.resolveLinks .ignore context) = some value := by
  refine ⟨Expr.containsOptionalLink_of_settled_nil (Expr.settled_ignoreLinks expr), ?_⟩
  intro reading
  exact interpretation.kept_result
    (interpretation.kept_chain_ignoreLinks reading expr environment) value evaluated

namespace ClosedHome

/-- The plainest model of objects, with a conjunction that does without its right operand if the
left one is false. -/
def model : LazyInterpretation (ObjectTree Literal) :=
  let plain := ObjectModel.plain fun _ _ => .null
  { plain.toInterpretation with
    binary op left right :=
      if op = .and then plain.choose left right (some (plain.ofBool false))
      else plain.binary op left right
    binary_failed op right := by cases op <;> rfl
    equal_null := plain.equal_null
    notEqual_null := plain.notEqual_null
    binary_skips op left result reached right := by
      by_cases isAnd : op = .and
      · rw [if_pos isAnd] at reached ⊢
        have skipped : ResultKept none (some right) := fun _ impossible => by cases impossible
        exact plain.kept_choose (.refl left) skipped (.refl _) result reached
      · rw [if_neg isAnd] at reached
        cases op <;> cases left <;> cases reached
    project_skips _ _ _ _ _ _ reached := by cases reached }

/-- `s?.Home != null && s?.Home?.Closed`, guarded by `s` -/
def homeIsClosed : Expr :=
  let person := .parameter "s" (.reference "Person")
  let home := .member person "Home" true (.reference "Address")
  .guarded person (.binary .and home.notNullCheck (.member home "Closed" true .boolean) .boolean)
    .boolean

/-- A person without a home. The right operand fails under the strict reading, and is skipped. -/
theorem nobody_at_home :
    let person : Environment (ObjectTree Literal) :=
      fun _ => some (.object (.string "Person") fun _ => .null)
    model.evaluate .strict person homeIsClosed = some (.atom (.bool false)) ∧
      (homeIsClosed.resolveLinks .ignore .enabled).containsOptionalLink = false ∧
      ∀ reading, model.evaluate reading person (homeIsClosed.resolveLinks .ignore .enabled) =
        some (.atom (.bool false)) :=
  ⟨rfl, evaluate_resolveLinks_ignore model _ .enabled homeIsClosed _ rfl⟩

end ClosedHome

end LazyInterpretation

end MappingForms
