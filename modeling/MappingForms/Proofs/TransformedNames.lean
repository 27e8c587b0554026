import MappingForms.Proofs.Batch.Reassembly
import MappingForms.Proofs.Expr.Scope
import MappingForms.Proofs.Inlining.Termination
import MappingForms.Proofs.LinkResolution
import MappingForms.Proofs.UpdatePlan.Run

/-!
Contract: the forms of a specification mention no names but their own parameters.

Owns: the law that the expansion of calls and the treatment of optional links add no free name,
and the expressions in the statements of an update plan.

Expressions move across scopes on the way: into the transforms of projections, out of the bodies of
other methods and into the bodies of guards. Each law is therefore about every scope in which the
expression could stand, not about the names of the expression alone.
-/

set_option autoImplicit false

namespace MappingForms

/-! ## Expansion of calls -/

namespace Inliner

section Templates

variable (inliner : Inliner) {templates : CallableId → Option Template}
  (closed : ∀ target template, templates target = some template →
    template.body.get.ScopedTo (· ∈ template.parameters))
include closed

/-- Every free name of a template is one of its parameters, and each of these is bound to an actual
argument. -/
theorem scopedTo_expandCall {known : String → Prop} {target : CallableId} {style : CallStyle}
    {receiver : Option Expr} {arguments : List Expr} {optional : Bool} {type : TypeRef}
    (inScope : (Expr.call target style receiver arguments optional type).ScopedTo known) :
    (inliner.expandCall templates target style receiver arguments optional type).ScopedTo
      known := by
  have actualsScoped : ∀ actual ∈ receiver.toList ++ arguments, actual.ScopedTo known :=
    (Expr.scopedTo_of_neutral rfl).1 inScope
  unfold expandCall
  extract_lets actuals kept
  split
  next => exact inScope
  next template eligible =>
    have bodyScoped : (template.body.get.substitute
        (Bindings.ofLists template.parameters actuals)).ScopedTo known := by
      apply Expr.scopedTo_substitute
      · intro name free notBound
        unfold callee? at eligible
        split at eligible
        · cases eligible
        · obtain ⟨found, sameLength⟩ := Option.filter_eq_some_iff.1 eligible
          obtain ⟨actual, bound⟩ := Bindings.exists_lookup_ofLists (beq_iff_eq.1 sameLength)
            (closed target template found name free)
          rw [bound] at notBound
          cases notBound
      · intro name free
        obtain ⟨actual, listed, inActual⟩ := Bindings.mem_freeNames_ofLists free
        exact actualsScoped actual listed name inActual
    cases optional with
    | false => exact bodyScoped
    | true =>
      cases receiver with
      | none => exact inScope
      | some receiver =>
        refine (Expr.scopedTo_of_neutral rfl).2 ?_
        simpa [Expr.children] using ⟨actualsScoped receiver List.mem_cons_self, bodyScoped⟩

private theorem scopedTo_inlineWith {known : String → Prop} {expr : Expr}
    (inScope : expr.ScopedTo known) :
    (inliner.inlineWith templates expr).ScopedTo known := by
  induction expr using Expr.induction_on_children generalizing known with
  | step expr inductionHypothesis =>
    have childrenScoped : (expr.mapChildren (inliner.inlineWith templates)).ScopedTo known :=
      inScope.mapChildren fun wider _ child listed => inductionHypothesis child listed
    rw [inlineWith_eq]
    generalize expr.mapChildren (inliner.inlineWith templates) = changed at childrenScoped
    cases changed with
    | call target style receiver arguments optional type =>
      exact inliner.scopedTo_expandCall closed childrenScoped
    | _ => exact childrenScoped

end Templates

/-- However deep expansions nest, the expanded bodies of callables mention their parameters only. -/
theorem scopedTo_inlineToDepth {inliner : Inliner}
    (closed : ∀ id callable, inliner.callables.get? id = some callable →
      callable.body.ScopedTo (· ∈ callable.parameters.map (·.name)))
    (depth : Nat) {known : String → Prop} {expr : Expr} (inScope : expr.ScopedTo known) :
    (inliner.inlineToDepth depth expr).ScopedTo known := by
  have bodiesClosed (body : Callable → Expr)
      (bodyClosed : ∀ id callable, inliner.callables.get? id = some callable →
        (body callable).ScopedTo (· ∈ callable.parameters.map (·.name))) :
      ∀ target template, inliner.bodies body target = some template →
        template.body.get.ScopedTo (· ∈ template.parameters) := by
    intro target template found
    obtain ⟨callable, isCallable, rfl⟩ := Option.map_eq_some_iff.1 found
    exact bodyClosed target callable isCallable
  induction depth generalizing known expr with
  | zero =>
    rw [inlineToDepth_zero]
    exact inliner.scopedTo_inlineWith (bodiesClosed Callable.body closed) inScope
  | succ depth inductionHypothesis =>
    rw [inlineToDepth_succ]
    refine inliner.scopedTo_inlineWith (bodiesClosed _ ?_) inScope
    intro id callable found
    exact inductionHypothesis (closed id callable found)

end Inliner

/-! ## Treatment of optional links -/

namespace Expr

variable {known : String → Prop}

private theorem scopedTo_literal (value : Literal) (type : TypeRef) :
    (literal value type).ScopedTo known :=
  (scopedTo_of_neutral rfl).2 (by simp [children])

private theorem children_ignoreLinks {expr : Expr} (notGuard : expr.isGuard = false) :
    expr.ignoreLinks.children = expr.children.map ignoreLinks := by
  cases expr with
  | guarded => cases notGuard
  | call target style receiver arguments optional type =>
    cases receiver <;> simp [ignoreLinks, children, ignoreLinksOfAll_eq_map]
  | _ =>
    simp [ignoreLinks, children, ignoreLinksOfAll_eq_map, ignoreLinksOfInitializers_eq_map,
      Initializer.value]

private theorem isNeutral_ignoreLinks {expr : Expr} (notGuard : expr.isGuard = false) :
    expr.ignoreLinks.isNeutral = expr.isNeutral := by
  cases expr with
  | guarded => cases notGuard
  | call target style receiver => cases receiver <;> rfl
  | _ => rfl

private theorem scopedTo_ignoreLinks {expr : Expr} (inScope : expr.ScopedTo known) :
    expr.ignoreLinks.ScopedTo known := by
  induction expr using induction_on_scope generalizing known with
  | parameter name type => exact inScope
  | projection source element transform materialize type sourceHypothesis transformHypothesis =>
    obtain ⟨sourceInScope, transformInScope⟩ := scopedTo_projection.1 inScope
    exact scopedTo_projection.2
      ⟨sourceHypothesis sourceInScope, transformHypothesis transform rfl transformInScope⟩
  | neutral expr neutral inductionHypothesis =>
    have childrenInScope := (scopedTo_of_neutral neutral).1 inScope
    cases isGuard : expr.isGuard with
    | false =>
      rw [scopedTo_of_neutral ((isNeutral_ignoreLinks isGuard).trans neutral),
        children_ignoreLinks isGuard]
      intro changed listed
      obtain ⟨child, isChild, rfl⟩ := List.mem_map.1 listed
      exact inductionHypothesis child isChild (childrenInScope child isChild)
    | true =>
      cases expr with
      | guarded receiver body type =>
        have listed : body ∈ (guarded receiver body type).children :=
          List.mem_cons_of_mem _ List.mem_cons_self
        exact inductionHypothesis body listed (childrenInScope body listed)
      | _ => cases isGuard

private theorem scopedTo_replace (old : Expr) {new expr : Expr} (inScope : expr.ScopedTo known)
    (newInScope : new.ScopedTo known) : (replace old new expr).ScopedTo known := by
  induction expr using induction_on_children generalizing known with
  | step expr inductionHypothesis =>
    rw [replace_eq]
    split
    · exact newInScope
    · refine inScope.mapChildren fun wider included child listed childInScope => ?_
      exact inductionHypothesis child listed childInScope (newInScope.mono included)

private theorem scopedTo_testedAccess {current access : Expr} (optional : Bool) (nullType : TypeRef)
    (currentInScope : current.ScopedTo known) (accessInScope : access.ScopedTo known) :
    (testedAccess optional nullType current access).ScopedTo known := by
  cases optional with
  | false => exact accessInScope
  | true =>
    have checkInScope : current.notNullCheck.ScopedTo known :=
      (scopedTo_of_neutral rfl).2 (by
        simp [notNullCheck, nullLike, children, currentInScope, scopedTo_literal])
    exact (scopedTo_of_neutral rfl).2 (by
      simp [testedAccess, children, checkInScope, accessInScope, scopedTo_literal])

/-- Expansion stays in scope if the treatment of guards does, in every scope. -/
theorem scopedTo_expandChain {expansion : LinkExpansion}
    (guards : ∀ (known : String → Prop) receiver body current, body.ScopedTo known →
      current.ScopedTo known → (expansion.resolveGuard receiver body current).ScopedTo known)
    {expr : Expr} (inScope : expr.ScopedTo known) (nullType : TypeRef)
    (continuation : Expr → Expr)
    (keeps : ∀ current, current.ScopedTo known → (continuation current).ScopedTo known) :
    (expr.expandChain expansion nullType continuation).ScopedTo known := by
  induction expr using induction_on_children generalizing known nullType continuation with
  | step expr inductionHypothesis =>
    have whole (wider : String → Prop) : ∀ child ∈ expr.children, child.ScopedTo wider →
        (child.expandWith expansion).ScopedTo wider := fun child listed childInScope =>
      inductionHypothesis child listed childInScope _ id fun _ => id
    have chained := fun child listed (childInScope : child.ScopedTo known) =>
      inductionHypothesis child listed childInScope nullType
    have atBase (base : expr.chainReceiver = none) :
        (expr.expandChain expansion nullType continuation).ScopedTo known := by
      rw [expandChain_of_base base]
      exact keeps _ (inScope.mapChildren fun wider _ => whole wider)
    cases expr with
    | member receiver name optional type =>
      have receiverInScope := (scopedTo_of_neutral rfl).1 inScope receiver List.mem_cons_self
      refine chained receiver List.mem_cons_self receiverInScope _ fun current inside => ?_
      refine scopedTo_testedAccess optional nullType inside (keeps _ ?_)
      exact (scopedTo_of_neutral rfl).2 (by simpa [children] using inside)
    | call target style receiver arguments optional type =>
      cases receiver with
      | none => exact atBase rfl
      | some receiver =>
        have childrenInScope := (scopedTo_of_neutral rfl).1 inScope
        refine chained receiver List.mem_cons_self (childrenInScope receiver List.mem_cons_self) _
          fun current inside => ?_
        refine scopedTo_testedAccess optional nullType inside
          (keeps _ ((scopedTo_of_neutral rfl).2 ?_))
        have argumentsInScope : ∀ argument ∈ arguments,
            (argument.expandWith expansion).ScopedTo known := fun argument listed =>
          whole known argument (List.mem_append_right _ listed)
            (childrenInScope argument (List.mem_append_right _ listed))
        simpa [children, expandAll_eq_map] using ⟨inside, argumentsInScope⟩
    | projection source element transform materialize type =>
      obtain ⟨sourceInScope, transformInScope⟩ := scopedTo_projection.1 inScope
      refine chained source List.mem_cons_self sourceInScope _ fun current inside => keeps _ ?_
      exact scopedTo_projection.2 ⟨inside,
        whole _ transform (List.mem_cons_of_mem _ List.mem_cons_self) transformInScope⟩
    | guarded receiver body type =>
      have childrenInScope := (scopedTo_of_neutral rfl).1 inScope
      refine chained receiver List.mem_cons_self (childrenInScope receiver List.mem_cons_self) _
        fun current inside => ?_
      refine scopedTo_testedAccess true nullType inside (keeps _ ?_)
      exact guards known receiver body current
        (childrenInScope body (List.mem_cons_of_mem _ List.mem_cons_self)) inside
    | _ => exact atBase rfl

private theorem scopedTo_expandToDepth (context : NullableContext) (depth : Nat) {expr : Expr}
    (inScope : expr.ScopedTo known) : (expandToDepth context depth expr).ScopedTo known := by
  induction depth generalizing known expr with
  | zero =>
    refine scopedTo_expandChain ?_ inScope _ id fun _ => id
    intro wider receiver body current bodyInScope currentInScope
    exact scopedTo_replace receiver bodyInScope currentInScope
  | succ depth inductionHypothesis =>
    refine scopedTo_expandChain ?_ inScope _ id fun _ => id
    intro wider receiver body current bodyInScope currentInScope
    exact inductionHypothesis (scopedTo_replace receiver bodyInScope currentInScope)

private theorem scopedTo_resolveLinks (policy : LinkPolicy) (context : NullableContext)
    {expr : Expr}
    (inScope : expr.ScopedTo known) : (expr.resolveLinks policy context).ScopedTo known := by
  cases policy with
  | keep => exact inScope
  | ignore => exact scopedTo_ignoreLinks inScope
  | expand => exact scopedTo_expandToDepth context _ inScope

end Expr

/-! ## Statements of an update plan -/

namespace Statement

/-- The expressions that a statement holds itself, apart from the statements nested in it. -/
def expressions : Statement → List Expr
  | returnIf conditions _ => conditions
  | ensureCreated _ creation => [creation]
  | assign _ value => [value]
  | branch condition _ _ => [condition]
  | raise exception => [exception]
  | comment _ => []
  | finish _ => []

/-- Every expression in the statements, nested ones included, is in scope. -/
def AllScopedTo (known : String → Prop) (statements : List Statement) : Prop :=
  ∀ statement ∈ nodesOfAll statements, ∀ expr ∈ statement.expressions, expr.ScopedTo known

variable {known : String → Prop}

private theorem allScopedTo_nil : AllScopedTo known [] := by
  intro statement impossible
  cases impossible

private theorem allScopedTo_append {first second : List Statement}
    (firstInScope : AllScopedTo known first)
    (secondInScope : AllScopedTo known second) : AllScopedTo known (first ++ second) := by
  intro statement listed
  rw [nodesOfAll_append] at listed
  rcases List.mem_append.1 listed with inFirst | inSecond
  · exact firstInScope statement inFirst
  · exact secondInScope statement inSecond

/-- A statement without nested statements is in scope with its own expressions. -/
theorem allScopedTo_singleton {statement : Statement} (leaf : statement.nodes = [statement])
    (inScope : ∀ expr ∈ statement.expressions, expr.ScopedTo known) :
    AllScopedTo known [statement] := by
  intro other listed
  rw [nodesOfAll, nodesOfAll, leaf, List.append_nil] at listed
  exact List.mem_singleton.1 listed ▸ inScope

private theorem allScopedTo_branch {condition : Expr} {thenDo otherwise : List Statement}
    (conditionInScope : condition.ScopedTo known) (thenInScope : AllScopedTo known thenDo)
    (otherwiseInScope : AllScopedTo known otherwise) :
    AllScopedTo known [branch condition thenDo otherwise] := by
  intro statement listed
  rw [nodesOfAll, nodesOfAll, List.append_nil, nodes] at listed
  rcases List.mem_cons.1 listed with rfl | below
  · intro expr isCondition
    exact List.mem_singleton.1 isCondition ▸ conditionInScope
  · rcases List.mem_append.1 below with inThen | inOtherwise
    · exact thenInScope statement inThen
    · exact otherwiseInScope statement inOtherwise

end Statement

namespace UpdatePlan

open Statement

variable {known : String → Prop} (setting : Setting)

private theorem scopedTo_creation {type : TypeRef} {arguments : List Expr}
    {initializers : List Initializer}
    (inScope : (Expr.construct type arguments initializers).ScopedTo known) :
    (Expr.construct type arguments []).ScopedTo known := by
  have childrenInScope := (Expr.scopedTo_of_neutral rfl).1 inScope
  refine (Expr.scopedTo_of_neutral rfl).2 fun child listed => childrenInScope child ?_
  simp only [Expr.children, List.map_nil, List.append_nil] at listed ⊢
  exact List.mem_append_left _ listed

private theorem allScopedTo_storeMembers {initializers : List Initializer}
    (values : ∀ init ∈ initializers, ∀ path info,
      AllScopedTo known (storeValue setting path info init.value))
    (parent : PropertyPath) : AllScopedTo known (storeMembers setting parent initializers) := by
  induction initializers with
  | nil => exact allScopedTo_nil
  | cons first rest inductionHypothesis =>
    obtain ⟨name, declared, value⟩ := first
    refine allScopedTo_append ?_
      (inductionHypothesis fun init listed => values init (List.mem_cons_of_mem _ listed))
    rw [storeMember]
    split
    · exact allScopedTo_singleton rfl (by simp [expressions])
    · exact values _ List.mem_cons_self _ _

private theorem allScopedTo_assign (path : PropertyPath) {value : Expr}
    (inScope : value.ScopedTo known) :
    AllScopedTo known [assign path value] :=
  allScopedTo_singleton rfl (by simpa [expressions] using inScope)

private theorem allScopedTo_ensureCreated (path : PropertyPath) {creation : Expr}
    (inScope : creation.ScopedTo known) : AllScopedTo known [ensureCreated path creation] :=
  allScopedTo_singleton rfl (by simpa [expressions] using inScope)

/-- What is stored is made of parts of the value. -/
theorem allScopedTo_storeValue {value : Expr} (inScope : value.ScopedTo known)
    (path : PropertyPath) (info : PathInfo) :
    AllScopedTo known (storeValue setting path info value) := by
  induction value using Expr.induction_on_children generalizing path info with
  | step value inductionHypothesis =>
    cases value with
    | construct type arguments initializers =>
      have childrenInScope := (Expr.scopedTo_of_neutral rfl).1 inScope
      rw [storeValue]
      split
      · refine allScopedTo_append ?_ (allScopedTo_storeMembers setting (fun init listed => ?_) path)
        · split
          · exact allScopedTo_ensureCreated path (scopedTo_creation inScope)
          · exact allScopedTo_nil
        · have isChild : init.value ∈ (Expr.construct type arguments initializers).children :=
            List.mem_append_right _ (List.mem_map_of_mem listed)
          exact inductionHypothesis _ isChild (childrenInScope _ isChild)
      · exact allScopedTo_assign path inScope
    | conditional condition whenTrue whenFalse type =>
      have childrenInScope := (Expr.scopedTo_of_neutral rfl).1 inScope
      have branchInScope : ∀ child ∈ (Expr.conditional condition whenTrue whenFalse type).children,
          AllScopedTo known (storeValue setting path info child) := fun child listed =>
        inductionHypothesis child listed (childrenInScope child listed) path info
      rw [storeValue]
      split
      · exact allScopedTo_branch (childrenInScope condition (by simp [Expr.children]))
          (branchInScope whenTrue (by simp [Expr.children]))
          (branchInScope whenFalse (by simp [Expr.children]))
      · exact allScopedTo_assign path inScope
    | raise exception type =>
      have exceptionInScope := (Expr.scopedTo_of_neutral rfl).1 inScope exception List.mem_cons_self
      exact allScopedTo_singleton rfl (by simpa [expressions] using exceptionInScope)
    | _ => exact allScopedTo_assign path inScope

private theorem freeNames_isNullCheck (name : String) (type : TypeRef) :
    (Expr.parameter name type).isNullCheck.freeNames = [name] := by
  rfl

/-- The early return tests the source or the destination. -/
theorem freeNames_of_mem_guardConditions {spec : Specification} {dest : Parameter}
    {context : NullableContext} {condition : Expr}
    (listed : condition ∈ guardConditions spec dest context) :
    condition.freeNames = [spec.parameter.name] ∨ condition.freeNames = [dest.name] := by
  rcases List.mem_append.1 listed with onSource | onDest
  · split at onSource
    · exact .inl (List.mem_singleton.1 onSource ▸ freeNames_isNullCheck _ _)
    · cases onSource
  · split at onDest
    · exact .inr (List.mem_singleton.1 onDest ▸ freeNames_isNullCheck _ _)
    · cases onDest

/-- The statements of a plan mention the source, and the destination in the early return only. -/
theorem names_of_plan {spec : Specification} {body : Expr} {context : NullableContext}
    {plan : UpdatePlan} (planned : ofBody spec body context = .ok plan)
    (inScope : body.ScopedTo (· = spec.parameter.name)) :
    plan.source = spec.parameter ∧ plan.dest.name ≠ plan.source.name ∧
      ∀ statement ∈ nodesOfAll plan.statements, ∀ expr ∈ statement.expressions,
        expr.freeNames ⊆ [plan.source.name] ∨
        (∃ conditions result, statement = .returnIf conditions result) ∧
          expr.freeNames = [plan.dest.name] := by
  obtain ⟨-, type, arguments, first, rest, rfl, sourceEq, destEq, statementsEq⟩ :=
    ofBody_eq_ok planned
  have creationInScope := scopedTo_creation inScope
  have membersInScope : AllScopedTo (· = spec.parameter.name) (storeMembers
      (settingOf spec (.construct type arguments (first :: rest)) context) (rootOf spec)
      (first :: rest)) := by
    have childrenInScope := (Expr.scopedTo_of_neutral rfl).1 inScope
    refine allScopedTo_storeMembers _ (fun init listed => ?_) _
    exact allScopedTo_storeValue _ (childrenInScope init.value
      (List.mem_append_right _ (List.mem_map_of_mem listed)))
  have afterGuard : AllScopedTo (· = spec.parameter.name)
      ((if spec.returnType.canBeNull context && spec.returnType.constructible then
          [.ensureCreated (rootOf spec) (.construct type arguments [])]
        else
          []) ++
        (storeMembers (settingOf spec (.construct type arguments (first :: rest)) context)
          (rootOf spec) (first :: rest) ++ [.finish (rootOf spec)])) := by
    refine allScopedTo_append ?_ (allScopedTo_append membersInScope ?_)
    · split
      · exact allScopedTo_ensureCreated _ creationInScope
      · exact allScopedTo_nil
    · exact allScopedTo_singleton rfl (by simp [expressions])
  refine ⟨sourceEq, ?_, ?_⟩
  · rw [sourceEq, destEq]
    exact destName_ne spec.parameter.name
  · intro statement listed expr isExpression
    rw [statementsEq, nodesOfAll_append] at listed
    rw [sourceEq]
    rcases List.mem_append.1 listed with inGuard | after
    · unfold earlyReturn at inGuard
      split at inGuard
      · cases inGuard
      · obtain rfl := List.mem_singleton.1 inGuard
        refine (freeNames_of_mem_guardConditions isExpression).imp ?_ fun onDest => ?_
        · intro onSource
          exact onSource ▸ List.Subset.refl _
        · exact ⟨⟨_, _, rfl⟩, onDest⟩
    · exact .inl fun name free =>
        List.mem_singleton.2 (afterGuard statement after expr isExpression name free)

end UpdatePlan

namespace Batch

private theorem mem_artifacts_ofForm {spec : Specification} {form : Except FormError Artifact}
    {due : Bool} {artifact : Artifact}
    (listed : artifact ∈ (if due then SpecOutput.ofForm spec form else {}).artifacts) :
    form = .ok artifact := by
  split at listed
  · cases form with
    | ok generated => exact congrArg Except.ok (List.mem_singleton.1 listed).symm
    | error error => cases listed
  · cases listed

/-- The expression form returns a lambda that binds the parameter of the specification. -/
theorem exists_expressionMember_eq (spec : Specification) (body : Expr)
    (context : NullableContext) :
    ∃ signature : List Document, Artifact.expressionMember spec body context =
      .concat (signature ++ [.block (.concat
        [.line, "return ", spec.parameter.name, " => ", Source.expression context body, ";"])]) :=
  ⟨["public static System.Linq.Expressions.Expression<System.Func<",
    spec.parameter.type.display context, ", ", spec.returnType.display context, ">> ",
    spec.id.name, "Expression()"], rfl⟩

/-- The artifacts of a specification print its transformed body, or the plan of that body. -/
theorem mem_artifacts_generateSpec {shared : Shared} {spec : Specification} {artifact : Artifact}
    (listed : artifact ∈ (generateSpec shared spec).artifacts) :
    artifact = .ofMember spec .expression shared.context
        (Artifact.expressionMember spec (transformed shared spec spec.body) shared.context) ∨
      ∃ plan, UpdatePlan.ofBody spec (transformed shared spec spec.body) shared.context = .ok plan ∧
        artifact = .ofPlan spec plan shared.context := by
  rcases List.mem_append.1 listed with isExpression | isUpdate
  · have generated := mem_artifacts_ofForm isExpression
    unfold Artifact.ofExpression at generated
    split at generated
    · cases generated
    · exact .inl (Except.ok.inj generated).symm
  · have generated := mem_artifacts_ofForm isUpdate
    unfold updateForm at generated
    cases planned : UpdatePlan.ofBody spec (transformed shared spec spec.body) shared.context with
    | error error =>
      rw [planned] at generated
      cases generated
    | ok plan =>
      rw [planned] at generated
      exact .inr ⟨plan, rfl, (Except.ok.inj generated).symm⟩

/-- Transformation invents no names: an expression has no free names after calls have been expanded
and optional links have been treated but those that it had before, whatever methods it calls, as
long as these mention their own parameters only. The forms of a specification that mentions its
parameter only are made of expressions that do so too, except that the early return of an update
may test the destination, which has a name of its own. The expression form is a lambda that binds
the parameter around the transformed body. -/
theorem transformation_invents_no_names {callables : Callables}
    (closed : ∀ id callable, callables.get? id = some callable →
      callable.body.freeNames ⊆ callable.parameters.map (·.name)) :
    (∀ (policy : LinkPolicy) (context : NullableContext) (expr : Expr),
      (((callables.inliner policy).inline expr).resolveLinks policy context).freeNames ⊆
        expr.freeNames) ∧
    ∀ (context : NullableContext) (spec : Specification),
      spec.body.freeNames ⊆ [spec.parameter.name] →
      let body := transformed (.ofCallables callables context) spec spec.body
      body.freeNames ⊆ [spec.parameter.name] ∧
      (∀ artifact ∈ (generateSpec (.ofCallables callables context) spec).artifacts,
        artifact = .ofMember spec .expression context
          (Artifact.expressionMember spec body context) ∨
        ∃ plan, UpdatePlan.ofBody spec body context = .ok plan ∧
          artifact = .ofPlan spec plan context) ∧
      (∃ signature : List Document, Artifact.expressionMember spec body context =
        .concat (signature ++ [.block (.concat
          [.line, "return ", spec.parameter.name, " => ", Source.expression context body, ";"])])) ∧
      ∀ plan, UpdatePlan.ofBody spec body context = .ok plan →
        plan.source = spec.parameter ∧ plan.dest.name ≠ plan.source.name ∧
        ∀ statement ∈ Statement.nodesOfAll plan.statements, ∀ expr ∈ statement.expressions,
          expr.freeNames ⊆ [plan.source.name] ∨
          (∃ conditions result, statement = .returnIf conditions result) ∧
            expr.freeNames = [plan.dest.name] := by
  have keeps (policy : LinkPolicy) (context : NullableContext) (expr : Expr) :
      (((callables.inliner policy).inline expr).resolveLinks policy context).freeNames ⊆
        expr.freeNames := by
    have inlined : ((callables.inliner policy).inline expr).ScopedTo (· ∈ expr.freeNames) :=
      Inliner.scopedTo_inlineToDepth closed callables.size fun _ => id
    exact Expr.scopedTo_resolveLinks policy context inlined
  refine ⟨keeps, fun context spec inScope => ?_⟩
  intro body
  have bodyInScope : body.freeNames ⊆ [spec.parameter.name] :=
    List.Subset.trans (keeps spec.options.links context spec.body) inScope
  refine ⟨bodyInScope, fun artifact => mem_artifacts_generateSpec,
    exists_expressionMember_eq spec body context, fun plan planned => ?_⟩
  exact UpdatePlan.names_of_plan planned fun name free => List.mem_singleton.1 (bodyInScope free)

end Batch

namespace RenamedElement

open TypeRef (string strings)

def post : TypeRef := .reference "Post"

/-- `Tag(items, label) => items.Select(t => label + t)` -/
def tag : Callable where
  id := { scope := "M", name := "Tag", signature := "List<string>, string" }
  parameters := [{ name := "items", type := strings }, { name := "label", type := string }]
  body := .projection (.parameter "items" strings) "t"
    (.binary .add (.parameter "label" string) (.parameter "t" string) string) none strings

def callables : Callables := Callables.add ∅ tag

/-- `Map(t) => new Post { Tags = Tag(t.Tags, t.Name) }`. The element of `Tag` has the name of the
parameter. -/
def spec : Specification where
  id := { scope := "M", name := "Map", signature := "Post" }
  scope := { name := "M", namespaceName := none, isStatic := true }
  parameter := { name := "t", type := post }
  returnType := post
  body := .construct post [] [⟨"Tags", strings, .call tag.id .static none
    [.member (.parameter "t" post) "Tags" false strings,
      .member (.parameter "t" post) "Name" false string] false strings⟩]
  options := { expression := true, update := true, links := .ignore, collections := .generate }
  span := {}

/-- The renamed element stays bound, and the plan mentions the parameter and the destination
only. -/
theorem plan_mentions_parameters_only :
    ∃ plan, UpdatePlan.ofBody spec
        (Batch.transformed (.ofCallables callables .enabled) spec spec.body) .enabled = .ok plan ∧
      ∀ statement ∈ Statement.nodesOfAll plan.statements, ∀ expr ∈ statement.expressions,
        expr.freeNames ⊆ ["t"] ∨ (∃ conditions result, statement = .returnIf conditions result) ∧
          expr.freeNames = ["dest"] := by
  have closed : ∀ id callable, callables.get? id = some callable →
      callable.body.freeNames ⊆ callable.parameters.map (·.name) := by
    intro id callable found
    have listed : (id, callable) ∈ [(tag.id, tag)] := (Table.get?_eq_some_iff _ _ _).1 found
    obtain ⟨rfl, rfl⟩ := Prod.mk.inj (List.mem_singleton.1 listed)
    decide
  refine ⟨_, rfl, ?_⟩
  obtain ⟨-, -, -, ofPlan⟩ :=
    (Batch.transformation_invents_no_names closed).2 .enabled spec (by decide)
  exact (ofPlan _ rfl).2.2

end RenamedElement

end MappingForms
