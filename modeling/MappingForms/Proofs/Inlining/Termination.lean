import MappingForms.Proofs.CallGraph.SafeCalls
import MappingForms.Proofs.Inlining.Expansion

/-!
Contract: the expansion of calls terminates on every table of callables.

Owns: chains of nested expansions, the bound on their length, the order in which the
pass enters expressions, and the law that the pass solves the recursion of calls and
bodies as the only function that does.

The pass enters the children of a node, and the body of the callable that the node is
expanded to. The second kind of step leaves the tree, so no measure of the tree alone
decreases. An expanded callable is safe, and the callables that are expanded in its own
body are callees of a lower rank. The depth at which the pass stops is therefore never
reached.
-/

set_option autoImplicit false

namespace MappingForms

namespace Inliner

/-! ## Nested expansions -/

/-- A chain of callables of which each is expanded within the one before it, and the first
within an expression. -/
inductive Nests (inliner : Inliner) : Expr → List Callable → Prop where
  | nil (expr : Expr) : Nests inliner expr []
  | cons {expr node : Expr} {callable : Callable} {rest : List Callable}
      (member : node ∈ expr.nodes) (expands : inliner.expands? node = some callable)
      (nested : Nests inliner callable.body rest) : Nests inliner expr (callable :: rest)

def NestsWithin (inliner : Inliner) (bound : Nat) (expr : Expr) : Prop :=
  ∀ chain, Nests inliner expr chain → chain.length ≤ bound

/-- Within the body of an expanded callable expansions nest less deep. -/
theorem NestsWithin.body {inliner : Inliner} {bound : Nat} {expr node : Expr}
    {callable : Callable} (within : NestsWithin inliner bound expr) (member : node ∈ expr.nodes)
    (expands : inliner.expands? node = some callable) :
    ∃ lower, bound = lower + 1 ∧ NestsWithin inliner lower callable.body := by
  have extended : ∀ chain, Nests inliner callable.body chain → chain.length + 1 ≤ bound :=
    fun chain nested => within (callable :: chain) (.cons member expands nested)
  have positive := extended [] (.nil _)
  refine ⟨bound - 1, by omega, fun chain nested => ?_⟩
  have shorter := extended chain nested
  omega

/-- The pass enters an expression while it works on another one. -/
inductive Enters (inliner : Inliner) : Expr → Expr → Prop where
  | child {child expr : Expr} (listed : child ∈ expr.children) : Enters inliner child expr
  | body {expr : Expr} {callable : Callable} (expands : inliner.expands? expr = some callable) :
      Enters inliner callable.body expr

variable {callables : Callables} {policy : LinkPolicy}

/-- An expanded callable is a safe callable of the table. -/
theorem safe_of_expands {node : Expr} {callable : Callable}
    (expands : (callables.inliner policy).expands? node = some callable) :
    Callables.calledId? node = some callable.id ∧
      callables.get? callable.id = some callable ∧
      (CallGraph.ofCallables callables).detectCycles.isUnsafe callable.id = false := by
  obtain ⟨target, called, isSafe, look⟩ := expands?_eq_some _ expands
  have keyed : target = callable.id :=
    callables.keyed _ ((callables.get?_eq_some_iff target callable).1 look)
  rw [keyed] at called isSafe look
  exact ⟨called, look, isSafe⟩

/-- A callable that is expanded in the body of a callable is a callee of it. -/
theorem calls_of_expands {id : CallableId} {callable callee : Callable} {node : Expr}
    (look : callables.get? id = some callable) (member : node ∈ callable.body.nodes)
    (expands : (callables.inliner policy).expands? node = some callee) :
    (CallGraph.ofCallables callables).Calls id callee.id := by
  obtain ⟨called, calleeLook, -⟩ := safe_of_expands expands
  rw [CallGraph.calls_ofCallables_iff look]
  exact ⟨⟨node, member, called⟩, (callables.contains_eq_true_iff _).2 ⟨callee, calleeLook⟩⟩

private theorem rank_lt_of_expands {id : CallableId} {callable callee : Callable} {node : Expr}
    (look : callables.get? id = some callable)
    (isSafe : (CallGraph.ofCallables callables).detectCycles.isUnsafe id = false)
    (member : node ∈ callable.body.nodes)
    (expands : (callables.inliner policy).expands? node = some callee) :
    (CallGraph.ofCallables callables).rank callee.id <
      (CallGraph.ofCallables callables).rank id := by
  refine CallGraph.rank_lt_of_calls isSafe (calls_of_expands look member expands) ?_
  rw [CallGraph.mem_nodes_ofCallables_iff, callables.contains_eq_true_iff]
  exact ⟨callee, (safe_of_expands expands).2.1⟩

private theorem rank_lt_size {id : CallableId} (known : callables.contains id = true) :
    (CallGraph.ofCallables callables).rank id < callables.size := by
  have isNode := (CallGraph.mem_nodes_ofCallables_iff callables id).2 known
  exact Nat.lt_of_lt_of_le (CallGraph.rank_lt_length isNode)
    (CallGraph.length_nodes_ofCallables_le callables)

/-- Within the body of a safe callable expansions nest no deeper than its rank. -/
theorem Nests.length_le_rank {chain : List Callable} {callable : Callable} {id : CallableId}
    (look : callables.get? id = some callable)
    (isSafe : (CallGraph.ofCallables callables).detectCycles.isUnsafe id = false)
    (nests : Nests (callables.inliner policy) callable.body chain) :
    chain.length ≤ (CallGraph.ofCallables callables).rank id := by
  induction chain generalizing callable id with
  | nil => exact Nat.zero_le _
  | cons callee rest inductionHypothesis =>
    cases nests with
    | cons member expands nested =>
      obtain ⟨-, calleeLook, calleeSafe⟩ := safe_of_expands expands
      have lower := rank_lt_of_expands look isSafe member expands
      have nestedLe := inductionHypothesis calleeLook calleeSafe nested
      rw [List.length_cons]
      omega

/-- Expansions nest no deeper than there are callables. -/
theorem Nests.length_le_size {expr : Expr} {chain : List Callable}
    (nests : Nests (callables.inliner policy) expr chain) : chain.length ≤ callables.size := by
  cases nests with
  | nil => exact Nat.zero_le _
  | @cons _ _ callable rest member expands nested =>
    obtain ⟨-, look, isSafe⟩ := safe_of_expands expands
    have nestedLe := nested.length_le_rank look isSafe
    have below := rank_lt_size ((callables.contains_eq_true_iff callable.id).2 ⟨callable, look⟩)
    rw [List.length_cons]
    omega

/-- What holds of an expression whenever it holds of the bodies that its nodes are expanded to
holds of every expression. -/
theorem induction_on_expansions (callables : Callables) (policy : LinkPolicy)
    {motive : Expr → Prop}
    (step : ∀ expr,
      (∀ node ∈ expr.nodes, ∀ callable,
        (callables.inliner policy).expands? node = some callable → motive callable.body) →
      motive expr)
    (expr : Expr) : motive expr := by
  have bounded : ∀ bound expr, NestsWithin (callables.inliner policy) bound expr →
      motive expr := by
    intro bound
    induction bound with
    | zero =>
      intro expr within
      refine step expr fun node member callable expands => ?_
      obtain ⟨lower, impossible, -⟩ := within.body member expands
      cases impossible
    | succ bound inductionHypothesis =>
      intro expr within
      refine step expr fun node member callable expands => ?_
      obtain ⟨lower, boundEq, nested⟩ := within.body member expands
      obtain rfl := Nat.succ.inj boundEq
      exact inductionHypothesis callable.body nested
  exact bounded callables.size expr fun _ nests => nests.length_le_size

/-- Expansion ends: there is no infinite chain of entered expressions. -/
theorem wellFounded_enters (callables : Callables) (policy : LinkPolicy) :
    WellFounded (Enters (callables.inliner policy)) := by
  refine ⟨fun expr => ?_⟩
  induction expr using induction_on_expansions callables policy with
  | step expr bodiesAccessible =>
    -- The bodies are settled, so the rest is an induction over the tree.
    induction expr using Expr.induction_on_children with
    | step expr inductionHypothesis =>
      refine ⟨expr, fun inner enters => ?_⟩
      cases enters with
      | child listed =>
        exact inductionHypothesis inner listed fun node member =>
          bodiesAccessible node (Expr.mem_nodes_of_mem_children listed member)
      | body expands => exact bodiesAccessible expr expr.mem_nodes_self _ expands

/-! ## The recursion of calls and bodies -/

section Depth

variable (inliner : Inliner)

def inlineToDepth (depth : Nat) (expr : Expr) : Expr :=
  inliner.inlineWith (fun target => (inliner.templates depth).get.get? target) expr

theorem inlineToDepth_zero (expr : Expr) :
    inliner.inlineToDepth 0 expr = inliner.inlineWith (inliner.bodies Callable.body) expr := by
  refine congrArg (inliner.inlineWith · expr) (funext fun target => ?_)
  show (inliner.callables.mapValues fun callable =>
    callable.template (Thunk.pure callable.body)).get? target = _
  rw [Table.get?_mapValues]
  rfl

/-- With one more level, the bodies of callables are expanded with the levels before. -/
theorem inlineToDepth_succ (depth : Nat) (expr : Expr) :
    inliner.inlineToDepth (depth + 1) expr =
      inliner.inlineWith (inliner.bodies fun callable => inliner.inlineToDepth depth callable.body)
        expr := by
  refine congrArg (inliner.inlineWith · expr) (funext fun target => ?_)
  show (inliner.callables.mapValues fun callable =>
    callable.template (Thunk.pure (inliner.inlineToDepth depth callable.body))).get? target = _
  rw [Table.get?_mapValues]
  rfl

/-- A bound that is not exceeded makes no difference. -/
theorem inlineToDepth_stable {depth : Nat} {expr : Expr} (within : NestsWithin inliner depth expr) :
    inliner.inlineToDepth depth expr = inliner.inlineToDepth (depth + 1) expr := by
  induction depth generalizing expr with
  | zero =>
    rw [inlineToDepth_zero, inlineToDepth_succ]
    refine inliner.inlineWith_congr expr fun node member callable expands => ?_
    obtain ⟨lower, impossible, -⟩ := within.body member expands
    cases impossible
  | succ depth inductionHypothesis =>
    rw [inlineToDepth_succ, inlineToDepth_succ]
    refine inliner.inlineWith_congr expr fun node member callable expands => ?_
    obtain ⟨lower, depthEq, nested⟩ := within.body member expands
    obtain rfl := Nat.succ.inj depthEq
    exact inductionHypothesis nested

end Depth

/-- The pass puts the expanded bodies of callables in place of calls, however deep they nest. -/
theorem inline_eq (callables : Callables) (policy : LinkPolicy) (expr : Expr) :
    (callables.inliner policy).inline expr =
      (callables.inliner policy).inlineWith
        ((callables.inliner policy).bodies fun callable =>
          (callables.inliner policy).inline callable.body) expr :=
  (inlineToDepth_stable _ fun _ nests => nests.length_le_size).trans (inlineToDepth_succ ..)

/-- The pass works on the children of a node and then on the node. -/
theorem inline_eq_expandNode (callables : Callables) (policy : LinkPolicy) (expr : Expr) :
    (callables.inliner policy).inline expr =
      (callables.inliner policy).expandNode
        ((callables.inliner policy).bodies fun callable =>
          (callables.inliner policy).inline callable.body)
        (expr.mapChildren (callables.inliner policy).inline) := by
  have childrenEq :=
    @Expr.mapChildren_congr expr _ _ fun child _ => inline_eq callables policy child
  rw [inline_eq, inlineWith_eq, childrenEq]

/-- The recursion of calls and bodies has no other solution. -/
theorem eq_inline_of_recursion (callables : Callables) (policy : LinkPolicy)
    {expand : Expr → Expr}
    (recursion : ∀ expr, expand expr =
      (callables.inliner policy).inlineWith
        ((callables.inliner policy).bodies fun callable => expand callable.body) expr) :
    expand = (callables.inliner policy).inline := by
  funext expr
  induction expr using induction_on_expansions callables policy with
  | step expr inductionHypothesis =>
    rw [recursion, inline_eq]
    exact inlineWith_congr _ expr inductionHypothesis

/-- The expansion of calls terminates on every table of callables.

A call that is expanded in the body of a safe callable is a call of the graph to a safe callable
of a strictly smaller rank, and ranks are below the number of callables. So expansions nest no
deeper than there are callables, whatever the expression they start in, and the pass enters
expressions in a well-founded order. Its result solves the recursion in which every expanded call
takes the expanded body of its callable, and nothing else does. -/
theorem inline_terminates (callables : Callables) (policy : LinkPolicy) :
    (∀ id callable node callee,
      callables.get? id = some callable →
      (CallGraph.ofCallables callables).detectCycles.isUnsafe id = false →
      node ∈ callable.body.nodes →
      (callables.inliner policy).expands? node = some callee →
        (CallGraph.ofCallables callables).Calls id callee.id ∧
        (CallGraph.ofCallables callables).detectCycles.isUnsafe callee.id = false ∧
        (CallGraph.ofCallables callables).rank callee.id <
          (CallGraph.ofCallables callables).rank id ∧
        (CallGraph.ofCallables callables).rank id < callables.size) ∧
    (∀ expr chain, Nests (callables.inliner policy) expr chain →
      chain.length ≤ callables.size) ∧
    WellFounded (Enters (callables.inliner policy)) ∧
    (∀ expr, (callables.inliner policy).inline expr =
      (callables.inliner policy).inlineWith
        ((callables.inliner policy).bodies fun callable =>
          (callables.inliner policy).inline callable.body) expr) ∧
    (∀ expand : Expr → Expr,
      (∀ expr, expand expr =
        (callables.inliner policy).inlineWith
          ((callables.inliner policy).bodies fun callable => expand callable.body) expr) →
      expand = (callables.inliner policy).inline) := by
  refine ⟨?_, fun _ _ nests => nests.length_le_size, wellFounded_enters callables policy,
    inline_eq callables policy, fun _ => eq_inline_of_recursion callables policy⟩
  intro id callable node callee look isSafe member expands
  exact ⟨calls_of_expands look member expands, (safe_of_expands expands).2.2,
    rank_lt_of_expands look isSafe member expands,
    rank_lt_size ((callables.contains_eq_true_iff id).2 ⟨callable, look⟩)⟩

end Inliner

end MappingForms
