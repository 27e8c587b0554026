import MappingForms.Proofs.Batch.Reassembly
import MappingForms.Proofs.CallGraph.Restriction
import MappingForms.Proofs.Discovery
import MappingForms.Proofs.Inlining.Termination

/-!
Contract: a specification depends on what it reaches, and on nothing else in its batch.

Owns: the identities that a specification reads, the expansion of calls over two tables with
a common part, and the law that two batches with the same callables under these identities
give the same output and the same warning for the specification.
-/

set_option autoImplicit false

namespace MappingForms

/-! ## Expansion over a common part -/

namespace Inliner

variable {within : CallableId → Bool} {left right : Callables}

/-- A call is expanded alike over two tables that agree on its target. -/
theorem expands?_eq_of_agree (agree : Callables.AgreeWithin within left right)
    (closed : left.Closed within) (policy : LinkPolicy) {node : Expr}
    (inside : ∀ target, Callables.calledId? node = some target → within target = true) :
    (left.inliner policy).expands? node = (right.inliner policy).expands? node := by
  cases node with
  | call target style receiver arguments optional type =>
    rw [expands?_call, expands?_call]
    unfold eligible?
    by_cases ofReceiver : style = .method
    · rw [if_pos (.inl ofReceiver), if_pos (.inl ofReceiver)]
    · have targetInside := inside target (if_neg ofReceiver)
      have sameSafety : (left.inliner policy).cycles.isUnsafe target =
          (right.inliner policy).cycles.isUnsafe target :=
        (agree.detectCycles_agree closed).isUnsafe_eq targetInside
      have sameCallable : (left.inliner policy).callables.get? target =
          (right.inliner policy).callables.get? target := agree target targetInside
      rw [sameSafety, sameCallable]
      rfl
  | _ => rfl

private theorem inline_eq_of_agree (agree : Callables.AgreeWithin within left right)
    (closed : left.Closed within) (policy : LinkPolicy) (expr : Expr)
    (inside : ∀ node ∈ expr.nodes, ∀ target, Callables.calledId? node = some target →
      within target = true) :
    (left.inliner policy).inline expr = (right.inliner policy).inline expr := by
  induction expr using induction_on_expansions left policy with
  | step expr inductionHypothesis =>
    rw [inline_eq left, inline_eq right]
    apply inlineWith_eq_of_expands
    · intro node member
      exact expands?_eq_of_agree agree closed policy (inside node member)
    · intro node member callable expands
      obtain ⟨called, look, -⟩ := safe_of_expands expands
      apply inductionHypothesis node member callable expands
      exact closed callable.id callable (inside node member _ called) look

end Inliner

/-! ## Specifications -/

namespace Batch

/-- The identities that a specification reads: its own, the targets of the calls in its body, and
the targets of the calls in the bodies of the known callables among them. -/
inductive Reads (callables : Callables) (spec : Specification) : CallableId → Prop where
  | self : Reads callables spec spec.id
  | target {node : Expr} {target : CallableId} (member : node ∈ spec.body.nodes)
      (called : Callables.calledId? node = some target) : Reads callables spec target
  | body {id target : CallableId} {callable : Callable} {node : Expr}
      (read : Reads callables spec id) (look : callables.get? id = some callable)
      (member : node ∈ callable.body.nodes)
      (called : Callables.calledId? node = some target) : Reads callables spec target

open Classical in
/-- A specification depends on what it reads, and on nothing else in its batch.

Let two tables hold the same callables under the identities that a specification reads in the
first, and none where the first has none. Over both tables, in the same context, the specification
has the same artifacts and diagnostics. The same is reported about every identity that it reads,
its own among them: the members of a cycle as well as the callee that leads into one. So the
warnings agree too. -/
theorem generateSpec_depends_on_reads (left right : Callables) (context : NullableContext)
    (spec : Specification)
    (agree : ∀ id, Reads left spec id → left.get? id = right.get? id) :
    generateSpec (.ofCallables left context) spec =
      generateSpec (.ofCallables right context) spec ∧
    (∀ id, Reads left spec id →
      (CallGraph.ofCallables left).detectCycles.get? id =
        (CallGraph.ofCallables right).detectCycles.get? id) ∧
    cycleWarning? (CallGraph.ofCallables left).detectCycles spec =
      cycleWarning? (CallGraph.ofCallables right).detectCycles spec := by
  let within : CallableId → Bool := fun id => decide (Reads left spec id)
  have agreeWithin : Callables.AgreeWithin within left right := by
    intro id inside
    exact agree id (of_decide_eq_true inside)
  have closed : left.Closed within := by
    intro id callable inside look node member target called
    exact decide_eq_true (.body (of_decide_eq_true inside) look member called)
  have sameReport := agreeWithin.detectCycles_agree closed
  have selfInside : within spec.id = true := decide_eq_true .self
  have sameInlined : (left.inliner spec.options.links).inline spec.body =
      (right.inliner spec.options.links).inline spec.body := by
    apply Inliner.inline_eq_of_agree agreeWithin closed
    intro node member target called
    exact decide_eq_true (.target member called)
  refine ⟨?_, ?_, ?_⟩
  · have sameBody : transformed (.ofCallables left context) spec spec.body =
        transformed (.ofCallables right context) spec spec.body :=
      congrArg (·.resolveLinks spec.options.links context) sameInlined
    have sameSafety : (Shared.ofCallables left context).cycles.isUnsafe spec.id =
        (Shared.ofCallables right context).cycles.isUnsafe spec.id :=
      sameReport.isUnsafe_eq selfInside
    unfold generateSpec
    rw [sameBody, sameSafety]
    rfl
  · intro id reads
    exact sameReport id (decide_eq_true reads)
  · unfold cycleWarning?
    rw [sameReport spec.id selfInside]

/-! ## A specification beside others -/

namespace Neighbours

def int : TypeRef := .value "int"

def idOf (name : String) : CallableId := ⟨"Mappers", name, "int"⟩

/-- `Mappers.Callee(x)` -/
def call (callee : String) : Expr :=
  .call (idOf callee) .static none [.parameter "x" int] false int

/-- `int Name(int x) => Mappers.Callee(x);` -/
def calling (name callee : String) : Callable :=
  ⟨idOf name, [⟨"x", int⟩], call callee⟩

/-- `Total` calls `Step`, which calls `Loop`, which calls itself. -/
def spec : Specification where
  id := idOf "Total"
  scope := ⟨none, "Mappers", false⟩
  parameter := ⟨"x", int⟩
  returnType := int
  body := call "Step"
  options := .ofMarker {}
  span := {}

def callablesWith (others : List Callable) : Callables :=
  ([calling "Total" "Step", calling "Step" "Loop", calling "Loop" "Loop"] ++ others).foldl
    Callables.add ∅

/-- Beside the specification, one batch has another caller of `Step`. -/
def first : Callables := callablesWith [calling "Sum" "Step"]

/-- The other has a callable before all others that calls `Total` and itself. -/
def second : Callables :=
  callablesWith
    [⟨idOf "Add", [⟨"x", int⟩], .call (idOf "Add") .static none [call "Total"] false int⟩]

private theorem target_of_mem_call {callee : String} {node : Expr} {target : CallableId}
    (member : node ∈ (call callee).nodes) (called : Callables.calledId? node = some target) :
    target = idOf callee := by
  rcases List.mem_pair.1 member with rfl | rfl
  · exact (Option.some.inj called).symm
  · cases called

private theorem get?_first_eq_second {id : CallableId}
    (listed : id ∈ ["Total", "Step", "Loop"].map idOf) :
    first.get? id = second.get? id ∧
      ∃ name, ∃ callee ∈ ["Step", "Loop"], first.get? id = some (calling name callee) := by
  rw [first, second, callablesWith, callablesWith, Callables.get?_foldl_add,
    Callables.get?_foldl_add]
  rcases List.mem_map.1 listed with ⟨name, isName, rfl⟩
  rcases List.mem_cons.1 isName with rfl | isLater
  · exact ⟨rfl, "Total", "Step", by simp, rfl⟩
  · rcases List.mem_pair.1 isLater with rfl | rfl
    · exact ⟨rfl, "Step", "Loop", by simp, rfl⟩
    · exact ⟨rfl, "Loop", "Loop", by simp, rfl⟩

private theorem mem_of_reads {id : CallableId} (reads : Reads first spec id) :
    id ∈ ["Total", "Step", "Loop"].map idOf := by
  induction reads with
  | self => exact List.mem_map_of_mem (by simp)
  | target member called =>
    rw [target_of_mem_call member called]
    exact List.mem_map_of_mem (by simp)
  | body _ look member called inductionHypothesis =>
    obtain ⟨-, name, callee, isCallee, found⟩ := get?_first_eq_second inductionHypothesis
    cases look.symm.trans found
    rw [target_of_mem_call member called]
    exact List.mem_map_of_mem (List.mem_cons_of_mem _ isCallee)

/-- The tables list different callables, and one of the second leads through the specification
into a cycle. The specification has the same output in both batches, and in both it leads into a
cycle by its call of `Step`. -/
theorem neighbours_leave_output_alone :
    first.keys ≠ second.keys ∧
    generateSpec (.ofCallables first .enabled) spec =
      generateSpec (.ofCallables second .enabled) spec ∧
    (CallGraph.ofCallables second).detectCycles.get? spec.id = some (.dependsOn (idOf "Step")) := by
  have sameOutput := generateSpec_depends_on_reads first second .enabled spec fun id reads =>
    (get?_first_eq_second (mem_of_reads reads)).1
  refine ⟨by decide +kernel, sameOutput.1, ?_⟩
  rw [← sameOutput.2.1 spec.id .self]
  decide +kernel

end Neighbours

end Batch

end MappingForms
