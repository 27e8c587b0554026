import MappingForms.Proofs.CallGraph.CycleReport
import MappingForms.Proofs.CallGraph.FirstCalls

/-!
Contract: calls of safe callables go down in rank.

Owns: the rank of a callable, its decrease along the calls of safe callables, and the
calls in the graph of a table of callables.

The walk over a graph finishes callees before callers, cycles excepted. The rank of a
callable is the number of nodes that the walk finishes before it.
-/

set_option autoImplicit false

namespace MappingForms

namespace CallGraph

variable {graph : CallGraph}

/-! ## Ranks -/

/-- The number of nodes that the walk finishes before a callable. -/
def rank (graph : CallGraph) (id : CallableId) : Nat :=
  (graph.nodes.filter fun node =>
    graph.components.flatten.idxOf node < graph.components.flatten.idxOf id).length

theorem rank_lt_length {id : CallableId} (isNode : id ∈ graph.nodes) :
    graph.rank id < graph.nodes.length :=
  List.length_filter_lt_length_iff_exists.2 ⟨id, isNode, by simp⟩

/-- The walk finishes the callees of a safe callable first. -/
theorem idxOf_lt_of_calls {caller callee : CallableId}
    (isSafe : graph.detectCycles.isUnsafe caller = false) (calls : graph.Calls caller callee) :
    graph.components.flatten.idxOf callee < graph.components.flatten.idxOf caller := by
  obtain ⟨finished, distinct, covers⟩ := graph.components_spec
  obtain ⟨members, listed, member⟩ := List.mem_flatten.1 (covers caller (mem_nodes_of_calls calls))
  obtain ⟨earlier, later, split⟩ := List.append_of_mem listed
  -- A callee in the same component would close a cycle.
  have calleeBefore : callee ∈ earlier.flatten := by
    rcases (finished earlier members later split).closed caller member callee calls with
      inside | before
    · have reachesBack := ((mem_component_iff listed member).1 inside).2
      have onCycle : graph.OnCycle caller := Relation.TransGen.head' calls reachesBack
      rw [Bool.eq_false_iff, ne_eq, isUnsafe_iff] at isSafe
      exact absurd onCycle.leadsToCycle isSafe
    · exact before
  have callerAfter : caller ∉ earlier.flatten := by
    intro before
    rw [split, List.flatten_append, List.flatten_cons] at distinct
    exact List.disjoint_of_nodup_append distinct before (List.mem_append_left _ member)
  rw [split, List.flatten_append, List.idxOf_append_of_mem calleeBefore,
    List.idxOf_append_of_notMem callerAfter]
  have inside := List.idxOf_lt_length_of_mem calleeBefore
  omega

/-- A safe callable ranks above all that it calls. -/
theorem rank_lt_of_calls {caller callee : CallableId}
    (isSafe : graph.detectCycles.isUnsafe caller = false) (calls : graph.Calls caller callee)
    (isNode : callee ∈ graph.nodes) : graph.rank callee < graph.rank caller := by
  have lower := idxOf_lt_of_calls isSafe calls
  unfold rank
  generalize graph.components.flatten = order at lower ⊢
  have filterEq : graph.nodes.filter (fun node => order.idxOf node < order.idxOf callee) =
      (graph.nodes.filter fun node => order.idxOf node < order.idxOf caller).filter
        fun node => order.idxOf node < order.idxOf callee := by
    rw [List.filter_filter]
    refine congrArg (List.filter · graph.nodes) (funext fun node => ?_)
    by_cases before : order.idxOf node < order.idxOf callee
    · simp [before, Nat.lt_trans before lower]
    · simp [before]
  rw [filterEq]
  refine List.length_filter_lt_length_iff_exists.2 ⟨callee, ?_, by simp⟩
  exact List.mem_filter.2 ⟨isNode, decide_eq_true lower⟩

/-! ## The graph of a table -/

/-- A callable is found under its identity, and only there. -/
theorem find?_values_eq_get? (callables : Callables) (id : CallableId) :
    callables.values.reverse.find? (·.id = id) = callables.get? id := by
  cases found : callables.values.reverse.find? (·.id = id) with
  | some callable =>
    have sameId : callable.id = id := by
      simpa using List.find?_some found
    have listed := List.mem_reverse.1 (List.mem_of_find?_eq_some found)
    obtain ⟨key, look⟩ := (callables.mem_values_iff callable).1 listed
    have keyed := callables.keyed _ ((callables.get?_eq_some_iff key callable).1 look)
    rw [← sameId, ← keyed, look]
  | none =>
    cases look : callables.get? id with
    | none => rfl
    | some callable =>
      have keyed := callables.keyed _ ((callables.get?_eq_some_iff id callable).1 look)
      have listed := List.mem_reverse.2 ((callables.mem_values_iff callable).2 ⟨id, look⟩)
      have absent := List.find?_eq_none.1 found callable listed
      exact absurd (decide_eq_true keyed.symm) absent

/-- The callees of a callable in the graph are the outgoing calls of its body. -/
theorem get?_ofCallables (callables : Callables) (id : CallableId) :
    (ofCallables callables).edges.get? id =
      (callables.get? id).map fun callable => callables.outgoingCalls callable.body := by
  have inserted := Table.get?_foldl_insert Callable.id
    (fun callable => callables.outgoingCalls callable.body) callables.values ∅ id
  rw [find?_values_eq_get?, Table.get?_empty, Option.or_none] at inserted
  exact inserted

/-- The nodes of the graph are the known callables. -/
theorem mem_nodes_ofCallables_iff (callables : Callables) (id : CallableId) :
    id ∈ (ofCallables callables).nodes ↔ callables.contains id = true := by
  unfold nodes
  rw [Table.mem_keys_iff_contains, Table.contains, get?_ofCallables, Option.isSome_map]
  rfl

theorem length_nodes_ofCallables_le (callables : Callables) :
    (ofCallables callables).nodes.length ≤ callables.size := by
  have listed : (ofCallables callables).nodes ⊆ callables.keys := by
    intro id isNode
    rw [callables.mem_keys_iff_contains]
    exact (mem_nodes_ofCallables_iff callables id).1 isNode
  calc (ofCallables callables).nodes.length
      ≤ callables.keys.length := (List.Nodup.subperm (Table.nodup_keys _) listed).length_le
    _ = callables.size := List.length_map _

/-- A callable of a table calls the known callees of its body. -/
theorem calls_ofCallables_iff {callables : Callables} {id callee : CallableId}
    {callable : Callable} (look : callables.get? id = some callable) :
    (ofCallables callables).Calls id callee ↔
      (∃ node ∈ callable.body.nodes, Callables.calledId? node = some callee) ∧
        callables.contains callee = true := by
  unfold Calls callees
  rw [get?_ofCallables, look, Option.map_some, Option.getD_some,
    Callables.mem_outgoingCalls_iff, and_comm, Callables.exists_callsAt_iff]

end CallGraph

end MappingForms
