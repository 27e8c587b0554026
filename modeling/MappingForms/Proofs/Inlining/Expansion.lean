import MappingForms.Inlining
import MappingForms.Proofs.Expr.Children
import MappingForms.Proofs.Table

/-!
Contract: which bodies the expansion of an expression reads.

Owns: the callable whose body takes the place of a call, templates with given bodies, the
expansion of a tree in terms of its children, and the law that the expansion reads the
bodies of the callables that it expands and no others.
-/

set_option autoImplicit false

namespace MappingForms

namespace Inliner

variable (inliner : Inliner)

/-! ## Eligible calls -/

def bodies (body : Callable → Expr) (target : CallableId) : Option Template :=
  (inliner.callables.get? target).map fun callable =>
    callable.template (Thunk.pure (body callable))

/-- The callable that a call with a number of actual arguments is expanded to. -/
def eligible? (target : CallableId) (style : CallStyle) (count : Nat) (optional : Bool) :
    Option Callable :=
  if style = .method ∨ inliner.cycles.isUnsafe target ∨
      (optional ∧ inliner.policy = .keep) then
    none
  else
    (inliner.callables.get? target).filter fun callable => count == callable.parameters.length

/-- An eligible call takes the body that is given for its callee. -/
theorem callee?_bodies (body : Callable → Expr) (target : CallableId) (style : CallStyle)
    (actuals : List Expr) (optional : Bool) :
    inliner.callee? (inliner.bodies body) target style actuals optional =
      (inliner.eligible? target style actuals.length optional).map fun callable =>
        callable.template (Thunk.pure (body callable)) := by
  unfold callee? eligible? bodies
  split
  · rfl
  · rw [Option.filter_map]
    refine congrArg (Option.map _ <| Option.filter · _) (funext fun callable => ?_)
    show (actuals.length == (callable.parameters.map (·.name)).length) = _
    rw [List.length_map]

/-- The callable whose body takes the place of an expression, if the expression is a call that
the pass expands. -/
def expands? : Expr → Option Callable
  | .call target style receiver arguments optional _ =>
    if (inliner.callee? (inliner.bodies Callable.body) target style
        (receiver.toList ++ arguments) optional).isSome then
      inliner.callables.get? target
    else
      none
  | _ => none

theorem expands?_call (target : CallableId) (style : CallStyle) (receiver : Option Expr)
    (arguments : List Expr) (optional : Bool) (type : TypeRef) :
    inliner.expands? (.call target style receiver arguments optional type) =
      inliner.eligible? target style (receiver.toList ++ arguments).length optional := by
  rw [expands?, callee?_bodies, Option.isSome_map]
  cases eligible : inliner.eligible? target style (receiver.toList ++ arguments).length
      optional with
  | none => rfl
  | some callable =>
    unfold eligible? at eligible
    split at eligible
    · cases eligible
    · rw [Option.isSome_some, if_pos rfl]
      exact (Option.filter_eq_some_iff.1 eligible).1

/-- Only safe callables of the table are expanded, and only for calls of their own identity. -/
theorem expands?_eq_some {node : Expr} {callable : Callable}
    (expands : inliner.expands? node = some callable) :
    ∃ target, Callables.calledId? node = some target ∧
      inliner.cycles.isUnsafe target = false ∧ inliner.callables.get? target = some callable := by
  cases node with
  | call target style receiver arguments optional type =>
    rw [expands?_call, eligible?] at expands
    split at expands
    · cases expands
    · rename_i accepted
      rw [not_or, not_or] at accepted
      refine ⟨target, if_neg accepted.1, Bool.eq_false_iff.2 accepted.2.1, ?_⟩
      exact (Option.filter_eq_some_iff.1 expands).1
  | _ => cases expands

/-! ## Expansion of a tree -/

/-- Expands a node whose children are expanded already. -/
def expandNode (templates : CallableId → Option Template) : Expr → Expr
  | .call target style receiver arguments optional type =>
    inliner.expandCall templates target style receiver arguments optional type
  | expr => expr

private theorem inlineAllWith_eq_map (templates : CallableId → Option Template)
    (exprs : List Expr) :
    inliner.inlineAllWith templates exprs = exprs.map (inliner.inlineWith templates) := by
  induction exprs with
  | nil => rfl
  | cons first rest inductionHypothesis =>
    rw [inlineAllWith, inductionHypothesis, List.map_cons]

private theorem inlineInitializersWith_eq_map (templates : CallableId → Option Template)
    (initializers : List Initializer) :
    inliner.inlineInitializersWith templates initializers =
      initializers.map fun init =>
        ⟨init.member, init.memberType, inliner.inlineWith templates init.value⟩ := by
  induction initializers with
  | nil => rfl
  | cons first rest inductionHypothesis =>
    obtain ⟨name, type, value⟩ := first
    rw [inlineInitializersWith, inductionHypothesis, List.map_cons]
    rfl

/-- A tree is expanded by expanding its children and then the node itself. -/
theorem inlineWith_eq (templates : CallableId → Option Template) (expr : Expr) :
    inliner.inlineWith templates expr =
      inliner.expandNode templates (expr.mapChildren (inliner.inlineWith templates)) := by
  cases expr with
  | call target style receiver arguments optional type =>
    cases receiver with
    | none =>
      rw [inlineWith, inlineAllWith_eq_map]
      rfl
    | some receiver =>
      rw [inlineWith, inlineAllWith_eq_map]
      rfl
  | construct type arguments initializers =>
    rw [inlineWith, inlineAllWith_eq_map, inlineInitializersWith_eq_map]
    rfl
  | _ => rfl

/-- Whether a call is expanded does not depend on what its arguments are. -/
theorem expands?_mapChildren (change : Expr → Expr) (expr : Expr) :
    inliner.expands? (expr.mapChildren change) = inliner.expands? expr := by
  cases expr with
  | call target style receiver arguments optional type =>
    rw [Expr.mapChildren, expands?_call, expands?_call]
    cases receiver <;> simp
  | _ => rfl

/-- A node that is not expanded stays as it is. -/
theorem expandNode_of_not_expands {body : Callable → Expr} {expr : Expr}
    (stays : inliner.expands? expr = none) :
    inliner.expandNode (inliner.bodies body) expr = expr := by
  cases expr with
  | call target style receiver arguments optional type =>
    rw [expands?_call] at stays
    rw [expandNode, expandCall, callee?_bodies, stays]
    rfl
  | _ => rfl

section Agreement

variable {left right : Inliner} {leftBody rightBody : Callable → Expr}

/-- The expansion of a node reads the callable that it is expanded to and its body. -/
theorem expandNode_congr {expr : Expr} (expandsAlike : left.expands? expr = right.expands? expr)
    (agree : ∀ callable, left.expands? expr = some callable →
      leftBody callable = rightBody callable) :
    left.expandNode (left.bodies leftBody) expr =
      right.expandNode (right.bodies rightBody) expr := by
  cases expr with
  | call target style receiver arguments optional type =>
    rw [expands?_call] at agree
    rw [expands?_call, expands?_call] at expandsAlike
    have calleeEq :
        left.callee? (left.bodies leftBody) target style (receiver.toList ++ arguments) optional =
          right.callee? (right.bodies rightBody) target style (receiver.toList ++ arguments)
            optional := by
      rw [callee?_bodies, callee?_bodies, ← expandsAlike]
      cases eligible : left.eligible? target style (receiver.toList ++ arguments).length
          optional with
      | none => rfl
      | some callable => rw [Option.map_some, Option.map_some, agree callable eligible]
    simp only [expandNode, expandCall, calleeEq]
  | _ => rfl

/-- A node that is expanded takes the body of its callable, whatever other bodies are. -/
theorem expandNode_of_expands {inliner : Inliner} (body : Callable → Expr) {expr : Expr}
    {callable : Callable} (expands : inliner.expands? expr = some callable) :
    inliner.expandNode (inliner.bodies body) expr =
      inliner.expandNode (inliner.bodies fun _ => body callable) expr := by
  refine expandNode_congr rfl fun other otherExpands => ?_
  rw [Option.some.inj (expands.symm.trans otherExpands)]

/-- The expansion of a tree reads the callables that its nodes are expanded to and their
bodies. -/
theorem inlineWith_eq_of_expands (expr : Expr)
    (expandsAlike : ∀ node ∈ expr.nodes, left.expands? node = right.expands? node)
    (agree : ∀ node ∈ expr.nodes, ∀ callable, left.expands? node = some callable →
      leftBody callable = rightBody callable) :
    left.inlineWith (left.bodies leftBody) expr =
      right.inlineWith (right.bodies rightBody) expr := by
  induction expr using Expr.induction_on_children with
  | step expr inductionHypothesis =>
    have childrenEq := Expr.mapChildren_congr fun child listed =>
      inductionHypothesis child listed
        (fun node member => expandsAlike node (Expr.mem_nodes_of_mem_children listed member))
        (fun node member => agree node (Expr.mem_nodes_of_mem_children listed member))
    rw [inlineWith_eq, inlineWith_eq, childrenEq]
    apply expandNode_congr
    · rw [expands?_mapChildren, expands?_mapChildren]
      exact expandsAlike expr expr.mem_nodes_self
    · rw [expands?_mapChildren]
      exact agree expr expr.mem_nodes_self

end Agreement

/-- The expansion of an expression depends only on the bodies of the callables that are expanded in
it. -/
theorem inlineWith_congr {leftBody rightBody : Callable → Expr} (expr : Expr)
    (agree : ∀ node ∈ expr.nodes, ∀ callable, inliner.expands? node = some callable →
      leftBody callable = rightBody callable) :
    inliner.inlineWith (inliner.bodies leftBody) expr =
      inliner.inlineWith (inliner.bodies rightBody) expr :=
  inlineWith_eq_of_expands expr (fun _ _ => rfl) agree

end Inliner

end MappingForms
