import MappingForms.Proofs.CallGraph.SafeCalls

/-!
Contract: what is reported about a callable depends on the callables that it reaches.

Owns: the part of a graph within a set of callables, the law that cycle detection on this
part reports what it reports on the whole graph, and the parts that two tables of callables
have in common.

The set must be closed: a callable within it calls only callables within it. The walk
against the calls visits other callables in between. It then marks nothing within the set,
because no callable within the set calls them, so leaving them out of the queue changes
neither the reasons nor the order of what remains.
-/

set_option autoImplicit false

namespace MappingForms

namespace CallGraph

variable {graph : CallGraph} {within : CallableId → Bool}

def restrict (graph : CallGraph) (within : CallableId → Bool) : CallGraph :=
  ⟨graph.edges.restrict within⟩

/-- The callables within a set call only callables within it. -/
def Closed (graph : CallGraph) (within : CallableId → Bool) : Prop :=
  ∀ caller callee, within caller = true → graph.Calls caller callee → within callee = true

/-! ## Reachability -/

private theorem calls_restrict_iff {caller callee : CallableId} :
    (graph.restrict within).Calls caller callee ↔
      within caller = true ∧ graph.Calls caller callee := by
  unfold Calls callees restrict
  rw [Table.get?_restrict]
  by_cases inside : within caller = true
  · simp [inside]
  · simp [inside]

private theorem Closed.reaches_restrict_iff (closed : graph.Closed within) {id other : CallableId}
    (inside : within id = true) :
    (graph.restrict within).Reaches id other ↔ graph.Reaches id other := by
  constructor
  · apply Relation.ReflTransGen.mono
    intro caller callee calls
    exact (calls_restrict_iff.1 calls).2
  · intro reaches
    have staysInside : (graph.restrict within).Reaches id other ∧ within other = true := by
      induction reaches with
      | refl => exact ⟨.refl, inside⟩
      | tail _ calls inductionHypothesis =>
        obtain ⟨reachesCaller, callerInside⟩ := inductionHypothesis
        exact ⟨reachesCaller.tail (calls_restrict_iff.2 ⟨callerInside, calls⟩),
          closed _ _ callerInside calls⟩
    exact staysInside.1

private theorem Closed.within_of_reaches (closed : graph.Closed within) {id other : CallableId}
    (inside : within id = true) (reaches : graph.Reaches id other) : within other = true :=
  reaches.mem_of_closed (fun node => within node = true)
    (fun _ nodeInside _ calls => closed _ _ nodeInside calls) inside

private theorem Closed.onCycle_restrict_iff (closed : graph.Closed within) {id : CallableId} :
    (graph.restrict within).OnCycle id ↔ within id = true ∧ graph.OnCycle id := by
  constructor
  · intro onCycle
    obtain ⟨callee, calls, reaches⟩ := onCycle.exists_calls
    obtain ⟨inside, callsWhole⟩ := calls_restrict_iff.1 calls
    have calleeInside := closed _ _ inside callsWhole
    exact ⟨inside, .head' callsWhole ((closed.reaches_restrict_iff calleeInside).1 reaches)⟩
  · rintro ⟨inside, onCycle⟩
    obtain ⟨callee, calls, reaches⟩ := onCycle.exists_calls
    have calleeInside := closed _ _ inside calls
    exact .head' (calls_restrict_iff.2 ⟨inside, calls⟩)
      ((closed.reaches_restrict_iff calleeInside).2 reaches)

/-! ## Cycles -/

private theorem Closed.get?_cyclic_restrict (closed : graph.Closed within) (id : CallableId) :
    (graph.restrict within).cyclic.get? id =
      if within id then graph.cyclic.get? id else none := by
  apply Option.ext
  intro reason
  rw [get?_cyclic_eq_some_iff, closed.onCycle_restrict_iff]
  by_cases inside : within id = true
  · -- Whatever reaches back to the callable is within the set.
    have connected : ∀ other,
        (graph.restrict within).Reaches id other ∧ (graph.restrict within).Reaches other id ↔
          graph.Reaches id other ∧ graph.Reaches other id := by
      intro other
      rw [closed.reaches_restrict_iff inside]
      apply and_congr_right
      intro reaches
      exact closed.reaches_restrict_iff (closed.within_of_reaches inside reaches)
    simp only [inside, connected, true_and, if_true, get?_cyclic_eq_some_iff]
  · simp [inside]

private theorem Closed.keys_cyclic_restrict (closed : graph.Closed within) :
    (graph.restrict within).cyclic.keys = graph.cyclic.keys.filter within := by
  have ordered : ∀ report : CycleReport,
      report.keys.Pairwise fun earlier later => compare earlier later = .lt :=
    fun report => List.pairwise_map.2 report.ordered
  apply Table.eq_of_increasing (fun id => id) (ordered _) ((ordered _).filter _)
  intro id
  rw [List.mem_filter, Table.mem_keys_iff_contains, Table.mem_keys_iff_contains, Table.contains,
    Table.contains, closed.get?_cyclic_restrict]
  by_cases inside : within id = true
  · simp [inside]
  · simp [inside]

/-! ## Callers -/

/-- The callers within the set are the callers in its part of the graph. -/
theorem getD_callers_restrict (graph : CallGraph) (within : CallableId → Bool)
    (callee : CallableId) :
    ((graph.restrict within).callers.get? callee).getD [] =
      ((graph.callers.get? callee).getD []).filter within := by
  rw [getD_callers, getD_callers]
  show (graph.edges.entries.filter fun entry => within entry.1).flatMap _ = _
  rw [List.filter_flatMap]
  induction graph.edges.entries with
  | nil => rfl
  | cons entry rest inductionHypothesis =>
    rw [List.filter_cons, List.flatMap_cons, List.filter_replicate, ← inductionHypothesis]
    by_cases inside : within entry.1 = true
    · rw [if_pos inside, if_pos inside, List.flatMap_cons]
    · rw [if_neg inside, if_neg inside, List.nil_append]

/-- A callable outside of a closed set has no callers within it. -/
theorem Closed.filter_callers (closed : graph.Closed within) {callee : CallableId}
    (outside : within callee ≠ true) :
    ((graph.callers.get? callee).getD []).filter within = [] := by
  rw [List.filter_eq_nil_iff]
  intro caller listed inside
  exact outside (closed caller callee inside (mem_callers_iff.1 listed))

/-! ## The walk against the calls -/

/-- Two reports say the same about the callables within a set. -/
def AgreeWithin (within : CallableId → Bool) (first second : CycleReport) : Prop :=
  ∀ id, within id = true → first.get? id = second.get? id

theorem AgreeWithin.isUnsafe_eq {first second : CycleReport}
    (agree : AgreeWithin within first second) {id : CallableId} (inside : within id = true) :
    first.isUnsafe id = second.isUnsafe id := by
  unfold CycleReport.isUnsafe Table.contains
  rw [agree id inside]

/-- Marking callers within a set does not depend on the callers outside of it. -/
theorem AgreeWithin.markCallers {first second : CycleReport} (callee : CallableId)
    (callers : List CallableId) (agree : AgreeWithin within first second) :
    AgreeWithin within (markCallers callee (callers.filter within) first).1
      (markCallers callee callers second).1 := by
  intro id inside
  rw [get?_markCallers, get?_markCallers, agree id inside]
  simp [inside]

private theorem AgreeWithin.insert_right {first second : CycleReport} {id : CallableId}
    {reason : Unsafety} (agree : AgreeWithin within first second) (outside : within id ≠ true) :
    AgreeWithin within first (second.insert id reason) := by
  intro other inside
  rw [Table.get?_insert, if_neg, agree other inside]
  rintro rfl
  exact outside inside

theorem AgreeWithin.insert {first second : CycleReport} (id : CallableId) (reason : Unsafety)
    (agree : AgreeWithin within first second) :
    AgreeWithin within (first.insert id reason) (second.insert id reason) := by
  intro other inside
  rw [Table.get?_insert, Table.get?_insert, agree other inside]

/-- Callers within the set are found in the same order. -/
theorem AgreeWithin.found_eq {first second : CycleReport} (callee : CallableId)
    (callers : List CallableId) (agree : AgreeWithin within first second) :
    (CallGraph.markCallers callee (callers.filter within) first).2 =
      (CallGraph.markCallers callee callers second).2.filter within := by
  induction callers generalizing first second with
  | nil => rfl
  | cons caller rest inductionHypothesis =>
    by_cases inside : within caller = true
    · rw [List.filter_cons_of_pos inside, CallGraph.markCallers, CallGraph.markCallers,
        agree.isUnsafe_eq inside]
      by_cases marked : second.isUnsafe caller = true
      · rw [if_pos marked, if_pos marked, inductionHypothesis agree]
      · rw [if_neg marked, if_neg marked]
        show caller :: (CallGraph.markCallers callee (rest.filter within) _).2 =
          (caller :: (CallGraph.markCallers callee rest _).2).filter within
        rw [List.filter_cons_of_pos inside,
          inductionHypothesis (agree.insert caller (.dependsOn callee))]
    · rw [List.filter_cons_of_neg inside, CallGraph.markCallers]
      by_cases marked : second.isUnsafe caller = true
      · rw [if_pos marked, inductionHypothesis agree]
      · rw [if_neg marked]
        show _ = (caller :: (CallGraph.markCallers callee rest _).2).filter within
        rw [List.filter_cons_of_neg inside, inductionHypothesis (agree.insert_right inside)]

/-- The walk over the part of the graph keeps step with the walk over the whole graph, which
takes more rounds. -/
theorem Closed.spread_restrict (closed : graph.Closed within) {rounds fewer : Nat}
    {queue : List CallableId} {first second : CycleReport}
    (agree : AgreeWithin within first second)
    (fewerEnough : (queue.filter within).length + unmarked (graph.restrict within).nodes first ≤
      fewer)
    (enough : queue.length + unmarked graph.nodes second ≤ rounds) :
    AgreeWithin within
      (spread (graph.restrict within).callers fewer (queue.filter within) first)
      (spread graph.callers rounds queue second) := by
  induction rounds generalizing fewer queue first second with
  | zero =>
    obtain rfl : queue = [] := List.length_eq_zero_iff.1 (by omega)
    rw [List.filter_nil, spread_nil, spread_nil]
    exact agree
  | succ rounds inductionHypothesis =>
    cases queue with
    | nil =>
      rw [List.filter_nil, spread_nil, spread_nil]
      exact agree
    | cons callee queue =>
      have stillEnough := rounds_enough_step enough
      have found := agree.found_eq callee ((graph.callers.get? callee).getD [])
      have marked := agree.markCallers callee ((graph.callers.get? callee).getD [])
      by_cases inside : within callee = true
      · -- Both walks work off the callable.
        rw [List.filter_cons_of_pos inside] at fewerEnough ⊢
        cases fewer with
        | zero =>
          rw [List.length_cons] at fewerEnough
          omega
        | succ fewer =>
          have fewerStillEnough := rounds_enough_step fewerEnough
          rw [← getD_callers_restrict] at found marked
          have queueEq := List.filter_append (p := within) queue
            (CallGraph.markCallers callee ((graph.callers.get? callee).getD []) second).2
          rw [← found] at queueEq
          rw [← queueEq] at fewerStillEnough
          have rest := inductionHypothesis marked fewerStillEnough stillEnough
          rw [queueEq] at rest
          exact rest
      · -- Only the walk over the whole graph does, and it marks nothing within the set.
        rw [closed.filter_callers inside] at found marked
        have queueEq := List.filter_append (p := within) queue
          (CallGraph.markCallers callee ((graph.callers.get? callee).getD []) second).2
        rw [← found] at queueEq
        have kept : (callee :: queue).filter within = (queue ++
            (CallGraph.markCallers callee ((graph.callers.get? callee).getD []) second).2).filter
              within := by
          rw [List.filter_cons_of_neg inside, queueEq]
          exact (List.append_nil _).symm
        rw [kept] at fewerEnough ⊢
        exact inductionHypothesis marked fewerEnough stillEnough

/-- What is reported about a callable within a closed set can be found without the rest of the
graph. -/
theorem Closed.detectCycles_restrict (closed : graph.Closed within) :
    AgreeWithin within (graph.restrict within).detectCycles graph.detectCycles := by
  have agree : AgreeWithin within (graph.restrict within).cyclic graph.cyclic := by
    intro id inside
    rw [closed.get?_cyclic_restrict, if_pos inside]
  have fewerEnough := rounds_enough_cyclic (graph.restrict within)
  unfold detectCycles
  rw [closed.keys_cyclic_restrict] at fewerEnough ⊢
  exact closed.spread_restrict agree fewerEnough (rounds_enough_cyclic graph)

/-! ## Tables with a common part -/

end CallGraph

namespace Callables

/-- A set holds the targets of all calls in the bodies of its known callables. -/
def Closed (callables : Callables) (within : CallableId → Bool) : Prop :=
  ∀ id callable, within id = true → callables.get? id = some callable →
    ∀ node ∈ callable.body.nodes, ∀ target, calledId? node = some target → within target = true

/-- Two tables hold the same callables within a set. -/
def AgreeWithin (within : CallableId → Bool) (left right : Callables) : Prop :=
  ∀ id, within id = true → left.get? id = right.get? id

variable {within : CallableId → Bool} {left right : Callables}

private theorem AgreeWithin.contains_eq (agree : AgreeWithin within left right) {id : CallableId}
    (inside : within id = true) : left.contains id = right.contains id := by
  unfold Table.contains
  rw [agree id inside]

/-- Whether a set is closed is decided by the callables within it. -/
theorem AgreeWithin.closed (agree : AgreeWithin within left right) (closed : left.Closed within) :
    right.Closed within := by
  intro id callable inside look
  exact closed id callable inside ((agree id inside).trans look)

/-- The known callees of an expression depend on the targets of its calls. -/
theorem AgreeWithin.outgoingCalls_eq (agree : AgreeWithin within left right) {expr : Expr}
    (targets : ∀ node ∈ expr.nodes, ∀ target, calledId? node = some target →
      within target = true) :
    left.outgoingCalls expr = right.outgoingCalls expr := by
  have knownEq : (expr.nodes.filterMap calledId?).filter left.contains =
      (expr.nodes.filterMap calledId?).filter right.contains := by
    apply List.filter_congr
    intro target listed
    obtain ⟨node, member, called⟩ := List.mem_filterMap.1 listed
    exact agree.contains_eq (targets node member target called)
  unfold outgoingCalls
  rw [knownEq]

/-- A closed set of callables is closed under calls in their graph. -/
theorem Closed.graph (closed : left.Closed within) :
    (CallGraph.ofCallables left).Closed within := by
  intro caller callee inside calls
  have known := (CallGraph.mem_nodes_ofCallables_iff left caller).1
    (CallGraph.mem_nodes_of_calls calls)
  obtain ⟨callable, look⟩ := (left.contains_eq_true_iff caller).1 known
  obtain ⟨⟨node, member, called⟩, -⟩ := (CallGraph.calls_ofCallables_iff look).1 calls
  exact closed caller callable inside look node member callee called

/-- Tables with a closed common part have the same graph there. -/
theorem AgreeWithin.restrict_eq (agree : AgreeWithin within left right)
    (closed : left.Closed within) :
    (CallGraph.ofCallables left).restrict within =
      (CallGraph.ofCallables right).restrict within := by
  apply congrArg CallGraph.mk
  apply Table.ext_get?
  intro id
  rw [Table.get?_restrict, Table.get?_restrict, CallGraph.get?_ofCallables,
    CallGraph.get?_ofCallables]
  by_cases inside : within id = true
  · rw [if_pos inside, if_pos inside, ← agree id inside]
    cases look : left.get? id with
    | none => rfl
    | some callable =>
      rw [Option.map_some, Option.map_some,
        agree.outgoingCalls_eq (closed id callable inside look)]
  · rw [if_neg inside, if_neg inside]

/-- Tables with a closed common part report the same about its callables. -/
theorem AgreeWithin.detectCycles_agree (agree : AgreeWithin within left right)
    (closed : left.Closed within) :
    CallGraph.AgreeWithin within (CallGraph.ofCallables left).detectCycles
      (CallGraph.ofCallables right).detectCycles := by
  intro id inside
  rw [← closed.graph.detectCycles_restrict id inside,
    ← (agree.closed closed).graph.detectCycles_restrict id inside, agree.restrict_eq closed]

end Callables

end MappingForms
