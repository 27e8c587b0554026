import MappingForms.Proofs.Expr.Scope
import MappingForms.Proofs.Inlining.Termination

/-!
Contract: one pass of expansion is enough.

Owns: the reasons for which a call is left as it is, properties of nodes that substitution
cannot take away, the expressions that a pass draws on, and the law that a pass leaves only
calls that the next pass leaves too.

Calls come into an expanded expression from three sides: from the expression, from the bodies
that take the place of calls, and from the actual arguments, which substitution copies under
binders and into guards. Whether a call is expanded depends on its own flags and on the number
of its arguments. Substitution changes neither, so it is enough that each side is expanded.
-/

set_option autoImplicit false

namespace MappingForms

namespace Expr

/-! ## Properties of all nodes -/

def AllNodes (property : Expr → Prop) (expr : Expr) : Prop := ∀ node ∈ expr.nodes, property node

variable {property : Expr → Prop}

private theorem allNodes_iff {expr : Expr} :
    AllNodes property expr ↔ property expr ∧ ∀ child ∈ expr.children, AllNodes property child := by
  unfold AllNodes
  rw [nodes_eq]
  simp only [List.forall_mem_cons, List.mem_flatMap, forall_exists_index, and_imp]
  exact and_congr_right fun _ => ⟨fun all child listed node => all node child listed,
    fun all node child listed => all child listed node⟩

/-- A property of a node that neither its children nor the names in it matter to. -/
structure Structural (property : Expr → Prop) : Prop where
  parameter : ∀ name type, property (parameter name type)
  projection : ∀ source element transform materialize type,
    property (projection source element transform materialize type)
  mapChildren : ∀ change expr, property expr → property (expr.mapChildren change)

namespace Structural

variable (structural : Structural property)
include structural

private theorem allNodes_parameter (name : String) (type : TypeRef) :
    AllNodes property (.parameter name type) :=
  allNodes_iff.2 ⟨structural.parameter name type, List.forall_mem_nil _⟩

private theorem allNodes_projection {source transform : Expr} (element : String)
    (materialize : Option String) (type : TypeRef) (inSource : AllNodes property source)
    (inTransform : AllNodes property transform) :
    AllNodes property (.projection source element transform materialize type) := by
  refine allNodes_iff.2 ⟨structural.projection source element transform materialize type, ?_⟩
  simpa [children] using ⟨inSource, inTransform⟩

private theorem allNodes_mapChildren {change : Expr → Expr} {expr : Expr} (own : property expr)
    (changed : ∀ child ∈ expr.children, AllNodes property (change child)) :
    AllNodes property (expr.mapChildren change) := by
  refine allNodes_iff.2 ⟨structural.mapChildren change expr own, ?_⟩
  rw [children_mapChildren]
  simpa using changed

private theorem allNodes_rename {expr : Expr} (old new : String) (all : AllNodes property expr) :
    AllNodes property (expr.rename old new) := by
  induction expr using induction_on_scope with
  | parameter name type =>
    rw [rename]
    exact structural.allNodes_parameter _ type
  | projection source element transform materialize type sourceHypothesis transformHypothesis =>
    have parts := (allNodes_iff.1 all).2
    have inTransform := parts transform (List.mem_cons_of_mem _ List.mem_cons_self)
    rw [rename]
    refine structural.allNodes_projection element materialize type
      (sourceHypothesis (parts source List.mem_cons_self)) ?_
    split
    · exact inTransform
    · exact transformHypothesis transform rfl inTransform
  | neutral expr neutral inductionHypothesis =>
    obtain ⟨own, parts⟩ := allNodes_iff.1 all
    rw [rename_of_neutral neutral]
    exact structural.allNodes_mapChildren own fun child listed =>
      inductionHypothesis child listed (parts child listed)

private theorem allNodes_avoidCapture (bindings : Bindings) (element : String) {transform : Expr}
    (all : AllNodes property transform) :
    AllNodes property (avoidCapture bindings element transform).2 := by
  unfold avoidCapture
  split
  · exact structural.allNodes_rename _ _ all
  · exact all

/-- What all nodes of an expression and of the substituted expressions have in common, all
nodes have after substitution. -/
theorem allNodes_substitute {expr : Expr} {bindings : Bindings} (all : AllNodes property expr)
    (bound : ∀ binding ∈ bindings, AllNodes property binding.2) :
    AllNodes property (expr.substitute bindings) := by
  induction expr using induction_on_scope generalizing bindings with
  | parameter name type =>
    rw [substitute]
    cases look : bindings.lookup name with
    | none => exact structural.allNodes_parameter name type
    | some argument =>
      obtain ⟨before, after, split, -⟩ := List.lookup_eq_some_iff.1 look
      have listed : (name, argument) ∈ bindings := by simp [split]
      exact bound (name, argument) listed
  | projection source element transform materialize type sourceHypothesis transformHypothesis =>
    have parts := (allNodes_iff.1 all).2
    have inTransform := parts transform (List.mem_cons_of_mem _ List.mem_cons_self)
    rw [substitute]
    refine structural.allNodes_projection _ materialize type
      (sourceHypothesis (parts source List.mem_cons_self) bound) ?_
    -- The element may be renamed first, so the hypothesis is needed for a term of the same size.
    refine transformHypothesis _ (size_avoidCapture ..)
      (structural.allNodes_avoidCapture _ element inTransform) ?_
    intro binding kept
    exact bound binding (List.mem_filter.1 kept).1
  | neutral expr neutral inductionHypothesis =>
    obtain ⟨own, parts⟩ := allNodes_iff.1 all
    rw [substitute_of_neutral neutral]
    exact structural.allNodes_mapChildren own fun child listed =>
      inductionHypothesis child listed (parts child listed) bound

end Structural

end Expr

namespace Inliner

open MappingForms.Expr

/-! ## Calls that stay -/

section Calls

variable (inliner : Inliner)

/-- The reasons for which a call is left as it is: it is a call of a method of the receiver
itself, its target is unsafe or unknown, the number of its actual arguments is not that of the
parameters, or it is optional, and optional links are kept or there is no receiver to test. -/
def Stays : Expr → Prop
  | .call target style receiver arguments optional _ =>
    style = .method ∨
    inliner.cycles.isUnsafe target = true ∨
    inliner.callables.get? target = none ∨
    (∃ callable, inliner.callables.get? target = some callable ∧
      (receiver.toList ++ arguments).length ≠ callable.parameters.length) ∨
    (optional = true ∧ inliner.policy = .keep) ∨
    (optional = true ∧ receiver = none)
  | _ => True

private theorem stays_mapChildren (change : Expr → Expr) (expr : Expr) :
    inliner.Stays (expr.mapChildren change) ↔ inliner.Stays expr := by
  cases expr with
  | call target style receiver arguments optional type =>
    cases receiver <;> simp [Stays, mapChildren]
  | _ => exact Iff.rfl

private theorem structural_stays : Structural inliner.Stays where
  parameter _ _ := trivial
  projection _ _ _ _ _ := trivial
  mapChildren change expr := (inliner.stays_mapChildren change expr).2

private theorem eligible?_eq_none_iff (target : CallableId) (style : CallStyle) (count : Nat)
    (optional : Bool) :
    inliner.eligible? target style count optional = none ↔
      style = .method ∨ inliner.cycles.isUnsafe target = true ∨
      inliner.callables.get? target = none ∨
      (∃ callable, inliner.callables.get? target = some callable ∧
        count ≠ callable.parameters.length) ∨
      (optional = true ∧ inliner.policy = .keep) := by
  unfold eligible?
  cases inliner.callables.get? target with
  | none => simp
  | some callable =>
    rw [ite_eq_left_iff, Option.filter_eq_none_iff]
    simp only [Option.some.injEq, forall_eq', beq_iff_eq, reduceCtorEq, exists_eq_left', false_or]
    tauto

/-- A call stays if no callable is eligible for it, or if there is no receiver to test. -/
theorem stays_call_iff (target : CallableId) (style : CallStyle) (receiver : Option Expr)
    (arguments : List Expr) (optional : Bool) (type : TypeRef) :
    inliner.Stays (.call target style receiver arguments optional type) ↔
      inliner.eligible? target style (receiver.toList ++ arguments).length optional = none ∨
        (optional = true ∧ receiver = none) := by
  rw [eligible?_eq_none_iff]
  simp only [Stays, or_assoc]

variable {inliner} (body : Callable → Expr) {expr : Expr}

private theorem expandNode_of_stays (stays : inliner.Stays expr) :
    inliner.expandNode (inliner.bodies body) expr = expr := by
  cases expr with
  | call target style receiver arguments optional type =>
    rw [expandNode, expandCall, callee?_bodies]
    rcases (inliner.stays_call_iff ..).1 stays with refused | ⟨isOptional, noReceiver⟩
    · rw [refused]
      rfl
    · rw [isOptional, noReceiver]
      split <;> rfl
  | _ => rfl

/-- A call that does not stay becomes the body of its callable over the actual arguments. If it
is optional, which is possible unless optional links are kept, a guard on its receiver goes
around the body. -/
theorem expandNode_of_not_stays (moves : ¬inliner.Stays expr) :
    ∃ callable, inliner.expands? expr = some callable ∧
      (inliner.expandNode (inliner.bodies body) expr =
          (body callable).substitute (.ofLists (callable.parameters.map (·.name)) expr.children) ∨
        inliner.policy ≠ .keep ∧ ∃ receiver ∈ expr.children,
          inliner.expandNode (inliner.bodies body) expr =
            .guarded receiver ((body callable).substitute
              (.ofLists (callable.parameters.map (·.name)) expr.children)) expr.type) := by
  cases expr with
  | call target style receiver arguments optional type =>
    have notKept : ¬(optional = true ∧ inliner.policy = .keep) :=
      fun keeps => moves (.inr (.inr (.inr (.inr (.inl keeps)))))
    rw [stays_call_iff, not_or] at moves
    obtain ⟨callable, eligible⟩ := Option.ne_none_iff_exists'.1 moves.1
    refine ⟨callable, (inliner.expands?_call ..).trans eligible, ?_⟩
    rw [expandNode, expandCall, callee?_bodies, eligible]
    cases optional with
    | false => exact .inl rfl
    | true =>
      cases receiver with
      | none => exact (moves.2 ⟨rfl, rfl⟩).elim
      | some receiver =>
        exact .inr ⟨fun keeps => notKept ⟨rfl, keeps⟩, receiver, List.mem_cons_self, rfl⟩
  | _ => exact (moves trivial).elim

end Calls

/-! ## Properties that expansion establishes -/

section Expansion

variable {inliner : Inliner} {property : Expr → Prop}

/-- After expansion all nodes have a property that the nodes which stay have, together with the
nodes of the expanded bodies and the guards that are put around them. -/
theorem allNodes_inlineWith (structural : Structural property) {body : Callable → Expr}
    {expr : Expr} (kept : ∀ node ∈ expr.nodes, inliner.Stays node → property node)
    (expanded : ∀ node ∈ expr.nodes, ∀ callable, inliner.expands? node = some callable →
      AllNodes property (body callable))
    (guards : inliner.policy ≠ .keep → ∀ receiver body type,
      property (.guarded receiver body type)) :
    AllNodes property (inliner.inlineWith (inliner.bodies body) expr) := by
  induction expr using Expr.induction_on_children with
  | step expr inductionHypothesis =>
    have parts : ∀ child ∈ expr.children,
        AllNodes property (inliner.inlineWith (inliner.bodies body) child) :=
      fun child listed => inductionHypothesis child listed
        (fun node member => kept node (mem_nodes_of_mem_children listed member))
        (fun node member => expanded node (mem_nodes_of_mem_children listed member))
    rw [inlineWith_eq]
    -- Whether a call stays is the same before and after its arguments are expanded.
    by_cases stays : inliner.Stays expr
    · rw [expandNode_of_stays body ((inliner.stays_mapChildren _ expr).2 stays)]
      exact structural.allNodes_mapChildren (kept expr expr.mem_nodes_self stays) parts
    · obtain ⟨callable, expands, result⟩ :=
        expandNode_of_not_stays body (mt (inliner.stays_mapChildren _ expr).1 stays)
      rw [expands?_mapChildren] at expands
      rw [children_mapChildren] at result
      have actuals : ∀ actual ∈ expr.children.map (inliner.inlineWith (inliner.bodies body)),
          AllNodes property actual := by simpa using parts
      have substituted : AllNodes property ((body callable).substitute
          (.ofLists (callable.parameters.map (·.name))
            (expr.children.map (inliner.inlineWith (inliner.bodies body))))) := by
        apply structural.allNodes_substitute (expanded expr expr.mem_nodes_self callable expands)
        intro binding listed
        exact actuals binding.2 (Bindings.mem_of_mem_ofLists listed)
      rcases result with isBody | ⟨notKept, receiver, isActual, isGuard⟩
      · rw [isBody]
        exact substituted
      · rw [isGuard]
        refine allNodes_iff.2 ⟨guards notKept _ _ _, ?_⟩
        simpa [children] using ⟨actuals receiver isActual, substituted⟩

private theorem inlineWith_of_stays {body : Callable → Expr} {expr : Expr}
    (stay : AllNodes inliner.Stays expr) :
    inliner.inlineWith (inliner.bodies body) expr = expr := by
  induction expr using Expr.induction_on_children with
  | step expr inductionHypothesis =>
    obtain ⟨stays, parts⟩ := allNodes_iff.1 stay
    have unchanged : expr.mapChildren (inliner.inlineWith (inliner.bodies body)) = expr :=
      calc expr.mapChildren (inliner.inlineWith (inliner.bodies body)) = expr.mapChildren id :=
            mapChildren_congr fun child listed =>
              inductionHypothesis child listed (parts child listed)
        _ = expr := mapChildren_id expr
    rw [inlineWith_eq, unchanged, expandNode_of_stays body stays]

end Expansion

/-! ## The whole pass -/

/-- An expression stands in another one, or in the body of a callable that is expanded there,
however deep the expansions nest. -/
inductive Supplies (inliner : Inliner) : Expr → Expr → Prop where
  | own {expr node : Expr} (member : node ∈ expr.nodes) : Supplies inliner expr node
  | body {expr call node : Expr} {callable : Callable} (member : call ∈ expr.nodes)
      (expands : inliner.expands? call = some callable)
      (supplied : Supplies inliner callable.body node) : Supplies inliner expr node

variable (callables : Callables) (policy : LinkPolicy) (expr : Expr)

private theorem allNodes_stays_inline :
    AllNodes (callables.inliner policy).Stays ((callables.inliner policy).inline expr) := by
  induction expr using induction_on_expansions callables policy with
  | step expr inductionHypothesis =>
    rw [inline_eq]
    apply allNodes_inlineWith (structural_stays _)
    · exact fun _ _ stays => stays
    · exact inductionHypothesis
    · exact fun _ _ _ _ => trivial

/-- If a node is a guard, then its type is one of those that are allowed. -/
def GuardAllowed (allowed : TypeRef → Prop) : Expr → Prop
  | .guarded _ _ type => allowed type
  | _ => True

private theorem structural_guardAllowed (allowed : TypeRef → Prop) :
    Structural (GuardAllowed allowed) where
  parameter _ _ := trivial
  projection _ _ _ _ _ := trivial
  mapChildren change expr isAllowed := by cases expr <;> exact isAllowed

/-- Where optional links are kept, the guards of an expanded expression were guards before. -/
theorem allNodes_guardAllowed_inline :
    AllNodes (GuardAllowed fun type => ∃ receiver body,
        Supplies (callables.inliner .keep) expr (.guarded receiver body type))
      ((callables.inliner .keep).inline expr) := by
  induction expr using induction_on_expansions callables .keep with
  | step expr inductionHypothesis =>
    rw [inline_eq]
    apply allNodes_inlineWith (structural_guardAllowed _)
    · intro node member _
      cases node with
      | guarded receiver body type => exact ⟨receiver, body, .own member⟩
      | _ => trivial
    · intro call member callable expands node inBody
      have allowed := inductionHypothesis call member callable expands node inBody
      cases node with
      | guarded receiver body type =>
        obtain ⟨origin, originBody, supplied⟩ := allowed
        exact ⟨origin, originBody, .body member expands supplied⟩
      | _ => trivial
    · exact fun notKept => (notKept rfl).elim

/-- One pass of expansion is enough.

Every call that is left in an expanded expression, wherever it stands, stays for one of the
reasons for which a pass leaves calls, and a pass changes nothing exactly when all calls stay.
So a second pass changes nothing. Where optional links are kept, every guard of the result was
written as a guard of the same type in the expression or in the body of an expanded callable. -/
theorem inline_complete_and_stable :
    (∀ node ∈ ((callables.inliner policy).inline expr).nodes,
      (callables.inliner policy).Stays node) ∧
    ((callables.inliner policy).inline expr = expr ↔
      ∀ node ∈ expr.nodes, (callables.inliner policy).Stays node) ∧
    (callables.inliner policy).inline ((callables.inliner policy).inline expr) =
      (callables.inliner policy).inline expr ∧
    (policy = .keep → ∀ receiver body type,
      .guarded receiver body type ∈ ((callables.inliner policy).inline expr).nodes →
        ∃ receiver body,
          Supplies (callables.inliner policy) expr (.guarded receiver body type)) := by
  have complete := allNodes_stays_inline callables policy
  have unchanged : ∀ expr, AllNodes (callables.inliner policy).Stays expr →
      (callables.inliner policy).inline expr = expr := fun expr stay =>
    (inline_eq callables policy expr).trans (inlineWith_of_stays stay)
  refine ⟨complete expr, ⟨?_, unchanged expr⟩, unchanged _ (complete expr), ?_⟩
  · intro same
    have allStay := complete expr
    rw [same] at allStay
    exact allStay
  · rintro rfl receiver body type member
    exact allNodes_guardAllowed_inline callables expr _ member

end Inliner

end MappingForms
