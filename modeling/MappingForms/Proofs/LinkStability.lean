import MappingForms.Proofs.LinkResolution

/-!
Contract: a second resolution of optional links changes nothing.

Owns: what each policy leaves unchanged, and from that the idempotence of the policies.

The result of an expansion can still hold optional links, namely calls without receiver. The
second pass does not skip such trees. It enters their chains and rebuilds them link by link,
and a chain without optional links is rebuilt as it was, whatever its base is.
-/

set_option autoImplicit false

namespace MappingForms

namespace Expr

variable {origins : List LooseCall} {expansion : LinkExpansion}

/-! ## Trees that are left alone -/

theorem Settled.child {expr child : Expr} (settled : Settled origins expr)
    (listed : child ∈ expr.children) : Settled origins child :=
  fun node member => settled node (mem_nodes_of_mem_children listed member)

/-- A settled node that continues a chain is no optional link. -/
theorem Settled.plain_of_chainReceiver {expr receiver : Expr} (settled : Settled origins expr)
    (continues : expr.chainReceiver = some receiver) : expr.isOptionalLink = false := by
  rw [Bool.eq_false_iff]
  intro isOptional
  obtain ⟨origin, -, isLoose⟩ := settled expr expr.mem_nodes_self isOptional
  obtain ⟨arguments, rfl, -⟩ := eq_call_of_looseCall? isLoose
  cases continues

/-- The chain of a settled tree is rebuilt as it was. -/
theorem expandChain_of_settled {expr : Expr} (settled : Settled origins expr)
    (nullType : TypeRef) (continuation : Expr → Expr) :
    expr.expandChain expansion nullType continuation = continuation expr := by
  induction expr using induction_on_children generalizing nullType continuation with
  | step expr inductionHypothesis =>
    have whole : ∀ child ∈ expr.children, child.expandWith expansion = child :=
      fun child listed => inductionHypothesis child listed (settled.child listed) _ id
    have chained := fun child listed =>
      inductionHypothesis child listed (settled.child listed) nullType
    have atBase (base : expr.chainReceiver = none) :
        expr.expandChain expansion nullType continuation = continuation expr := by
      rw [expandChain_of_base base, mapChildren_congr whole]
      exact congrArg continuation expr.mapChildren_id
    cases expr with
    | member receiver name optional type =>
      obtain rfl : optional = false := settled.plain_of_chainReceiver rfl
      exact chained receiver List.mem_cons_self _
    | call target style receiver arguments optional type =>
      cases receiver with
      | none => exact atBase rfl
      | some receiver =>
        obtain rfl : optional = false := settled.plain_of_chainReceiver rfl
        have argumentsEq : expandAll expansion arguments = arguments := by
          rw [expandAll_eq_map]
          exact (List.map_congr_left fun argument listed =>
            whole argument (List.mem_append_right _ listed)).trans (List.map_id arguments)
        rw [expandChain, argumentsEq]
        exact chained receiver List.mem_cons_self _
    | projection source element transform materialize type =>
      have transformEq := whole transform (List.mem_cons_of_mem _ List.mem_cons_self)
      unfold expandWith at transformEq
      rw [expandChain, transformEq]
      exact chained source List.mem_cons_self _
    | guarded receiver body type =>
      cases settled.plain_of_chainReceiver rfl
    | _ => exact atBase rfl

private theorem expandLinks_of_settled (context : NullableContext) {expr : Expr}
    (settled : Settled origins expr) : expandLinks context expr = expr := by
  unfold expandLinks
  cases expr.guardCount with
  | zero => exact expandChain_of_settled settled _ id
  | succ depth => exact expandChain_of_settled settled _ id

/-- A node that is no optional link keeps everything but its children. -/
theorem ignoreLinks_of_isOptionalLink_eq_false {expr : Expr}
    (plain : expr.isOptionalLink = false) : expr.ignoreLinks = expr.mapChildren ignoreLinks := by
  cases expr with
  | member receiver name optional type =>
    obtain rfl : optional = false := plain
    rfl
  | call target style receiver arguments optional type =>
    obtain rfl : optional = false := plain
    cases receiver <;> simp [ignoreLinks, mapChildren, ignoreLinksOfAll_eq_map]
  | construct type arguments initializers =>
    rw [ignoreLinks, mapChildren, ignoreLinksOfAll_eq_map, ignoreLinksOfInitializers_eq_map]
  | guarded receiver body type => cases plain
  | _ => rfl

private theorem ignoreLinks_of_settled_nil {expr : Expr} (settled : Settled [] expr) :
    expr.ignoreLinks = expr := by
  induction expr using induction_on_children with
  | step expr inductionHypothesis =>
    have plain : expr.isOptionalLink = false := by
      rw [Bool.eq_false_iff]
      intro isOptional
      obtain ⟨origin, impossible, -⟩ := settled expr expr.mem_nodes_self isOptional
      cases impossible
    have unchanged : ∀ child ∈ expr.children, child.ignoreLinks = id child :=
      fun child listed => inductionHypothesis child listed (settled.child listed)
    rw [ignoreLinks_of_isOptionalLink_eq_false plain, mapChildren_congr unchanged,
      mapChildren_id]

private theorem settled_nil_iff {expr : Expr} :
    Settled [] expr ↔ expr.containsOptionalLink = false := by
  refine ⟨containsOptionalLink_of_settled_nil, fun none node member isOptional => ?_⟩
  exact absurd isOptional (List.any_eq_false.1 none node member)

/-! ## Fixed points -/

/-- Ignoring optional links changes a tree exactly if it holds one. -/
theorem ignoreLinks_eq_self_iff {expr : Expr} :
    expr.ignoreLinks = expr ↔ expr.containsOptionalLink = false := by
  rw [← settled_nil_iff]
  refine ⟨fun unchanged => ?_, ignoreLinks_of_settled_nil⟩
  have settled := settled_ignoreLinks expr
  rw [unchanged] at settled
  exact settled

/-- Expansion changes a tree exactly if it holds an optional link other than a call without
receiver. -/
theorem expandLinks_eq_self_iff {context : NullableContext} {expr : Expr} :
    expandLinks context expr = expr ↔
      ∀ node ∈ expr.nodes, node.isOptionalLink = true →
        ∃ target style arguments type, node = call target style none arguments true type := by
  constructor
  · intro unchanged node member isOptional
    have settled := settled_expandLinks context expr
    rw [unchanged] at settled
    obtain ⟨origin, -, isLoose⟩ := settled node member isOptional
    obtain ⟨arguments, nodeEq, -⟩ := eq_call_of_looseCall? isLoose
    exact ⟨_, _, arguments, _, nodeEq⟩
  · intro loose
    have settled : Settled expr.looseCalls expr := by
      intro node member isOptional
      obtain ⟨target, style, arguments, type, rfl⟩ := loose node member isOptional
      exact ⟨_, mem_looseCalls member rfl, rfl⟩
    exact expandLinks_of_settled context settled

/-- Resolving optional links a second time changes nothing.

This holds of every policy, also if the second pass is made in another nullable context. No
policy changes a tree without optional links. Ignoring links changes every other tree, and
expanding them changes every tree with an optional link other than a call without receiver,
which has nothing to be tested. -/
theorem resolveLinks_idempotent (context other : NullableContext) (expr : Expr) :
    (∀ policy : LinkPolicy,
      (expr.resolveLinks policy context).resolveLinks policy other =
        expr.resolveLinks policy context) ∧
    (∀ policy : LinkPolicy, expr.containsOptionalLink = false →
      expr.resolveLinks policy context = expr) ∧
    (expr.resolveLinks .ignore context = expr ↔ expr.containsOptionalLink = false) ∧
    (expr.resolveLinks .expand context = expr ↔
      ∀ node ∈ expr.nodes, node.isOptionalLink = true →
        ∃ target style arguments type, node = call target style none arguments true type) := by
  refine ⟨fun policy => ?_, fun policy none => ?_, ignoreLinks_eq_self_iff,
    expandLinks_eq_self_iff⟩
  · cases policy with
    | keep => rfl
    | ignore => exact ignoreLinks_of_settled_nil (settled_ignoreLinks expr)
    | expand => exact expandLinks_of_settled other (settled_expandLinks context expr)
  · have settled := settled_nil_iff.2 none
    cases policy with
    | keep => rfl
    | ignore => exact ignoreLinks_of_settled_nil settled
    | expand => exact expandLinks_of_settled context settled

end Expr

end MappingForms
