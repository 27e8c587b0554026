import MappingForms.CallGraph.Cycles
import MappingForms.Proofs.CallGraph.Components
import Mathlib.Data.List.Perm.Subperm

/-!
Contract: the report of unsafe callables is exact.

Owns: the callables that are reported on cycles, the invariant of the walk against the
calls, and the characterisation of the report by reachability.

The walk against the calls keeps a queue of unsafe callables whose callers are still to
be marked. At any time the callers of every other unsafe callable are marked, so an
empty queue means that the callers of unsafe callables are unsafe. Every callable is
queued when it is marked, so the queue and the unmarked nodes together never outgrow
the rounds that are left.
-/

set_option autoImplicit false

namespace MappingForms

namespace CallGraph

variable {graph : CallGraph}

/-! ## Components and cycles -/

/-- A component holds what its members reach and are reached from. -/
theorem mem_component_iff {members : List CallableId} {node other : CallableId}
    (listed : members ∈ graph.components) (member : node ∈ members) :
    other ∈ members ↔ graph.Reaches node other ∧ graph.Reaches other node :=
  graph.components_spec.1.mem_iff graph.components_spec.2.1 listed member

private theorem nodup_component {members : List CallableId} (listed : members ∈ graph.components) :
    members.Nodup :=
  graph.components_spec.2.1.sublist (List.sublist_flatten_of_mem listed)

/-- A component is a cycle exactly if its members lie on cycles. -/
theorem isCycle_iff {members : List CallableId} {node : CallableId}
    (listed : members ∈ graph.components) (member : node ∈ members) :
    graph.isCycle members = true ↔ graph.OnCycle node := by
  match members, listed, member with
  | [single], listed, member =>
    obtain rfl := List.mem_singleton.1 member
    rw [isCycle, List.contains_iff_mem]
    constructor
    · intro calls
      exact .single calls
    · intro onCycle
      obtain ⟨callee, calls, reaches⟩ := onCycle.exists_calls
      have inside := (mem_component_iff listed member).2 ⟨.single calls, reaches⟩
      rw [List.mem_singleton.1 inside] at calls
      exact calls
  | first :: second :: rest, listed, member =>
    refine ⟨fun _ => ?_, fun _ => rfl⟩
    -- Some member is not the given one, and there is a way to it and back.
    have firstNe : first ≠ second := by
      intro same
      have distinct := nodup_component listed
      rw [same] at distinct
      exact (List.nodup_cons.1 distinct).1 List.mem_cons_self
    obtain ⟨other, inside, different⟩ :
        ∃ other, other ∈ first :: second :: rest ∧ other ≠ node := by
      by_cases same : first = node
      · exact ⟨second, by simp, fun secondSame => firstNe (same.trans secondSame.symm)⟩
      · exact ⟨first, by simp, same⟩
    obtain ⟨reaches, reachesBack⟩ := (mem_component_iff listed member).1 inside
    rcases Relation.reflTransGen_iff_eq_or_transGen.1 reaches with same | transitively
    · exact absurd same different
    · exact transitively.trans_left reachesBack

/-! ## The callables on cycles -/

/-- The members of a component in the order of identities. -/
def inOrder (component : List CallableId) : List CallableId :=
  component.mergeSort fun left right => (compare left right).isLE

private theorem pairwise_inOrder {component : List CallableId} (distinct : component.Nodup) :
    (inOrder component).Pairwise fun earlier later => compare earlier later = .lt := by
  have sorted : (inOrder component).Pairwise fun earlier later =>
      (compare earlier later).isLE = true := by
    refine List.pairwise_mergeSort (fun _ _ _ => Std.TransCmp.isLE_trans) ?_ component
    intro left right
    have swapped : compare right left = (compare left right).swap := Std.OrientedOrd.eq_swap
    rw [swapped]
    cases compare left right <;> rfl
  have distinctSorted : (inOrder component).Nodup :=
    (List.mergeSort_perm component _).nodup_iff.2 distinct
  exact Table.increasing_of_sorted sorted distinctSorted

private theorem get?_insertAll (members : List CallableId) (reason : Unsafety)
    (report : CycleReport) (id : CallableId) :
    (members.foldl (fun report member => report.insert member reason) report).get? id =
      if id ∈ members then some reason else report.get? id := by
  rw [Table.get?_foldl_insert (fun member => member) fun _ => reason]
  by_cases member : id ∈ members
  · have present : (members.reverse.find? (· = id)).isSome = true := by
      rw [List.find?_isSome]
      exact ⟨id, List.mem_reverse.2 member, by simp⟩
    obtain ⟨found, look⟩ := Option.isSome_iff_exists.1 present
    rw [look, if_pos member, Option.map_some, Option.some_or]
  · have absent : members.reverse.find? (· = id) = none := by
      rw [List.find?_eq_none]
      intro other listed
      have different : other ≠ id := fun same => member (same ▸ List.mem_reverse.1 listed)
      simp [different]
    rw [absent, if_neg member, Option.map_none, Option.none_or]

/-- A callable is reported with the last component that it is a member of. -/
theorem get?_addComponents (components : List (List CallableId)) (report : CycleReport)
    (id : CallableId) :
    (components.foldl
        (fun report component =>
          (inOrder component).foldl
            (fun report id => report.insert id (.onCycle (inOrder component))) report)
        report).get? id =
      ((components.reverse.find? (id ∈ ·)).map fun component =>
        Unsafety.onCycle (inOrder component)).or (report.get? id) := by
  induction components generalizing report with
  | nil => simp
  | cons first rest inductionHypothesis =>
    rw [List.foldl_cons, inductionHypothesis, get?_insertAll, List.reverse_cons,
      List.find?_append]
    have inOrderIff : id ∈ inOrder first ↔ id ∈ first := List.mem_mergeSort
    cases rest.reverse.find? (id ∈ ·) with
    | some component => simp
    | none =>
      by_cases member : id ∈ first
      · simp [inOrderIff, member]
      · simp [inOrderIff, member]

private theorem get?_cyclic (graph : CallGraph) (id : CallableId) :
    graph.cyclic.get? id =
      ((graph.components.filter graph.isCycle).reverse.find? (id ∈ ·)).map fun component =>
        Unsafety.onCycle (inOrder component) :=
  (get?_addComponents _ ∅ id).trans (Option.or_none ..)

/-- What is reported on a cycle lies on one, together with all members of its component. -/
theorem get?_cyclic_eq_some {id : CallableId} {reason : Unsafety}
    (found : graph.cyclic.get? id = some reason) :
    graph.OnCycle id ∧ ∃ members, reason = .onCycle members ∧
      members.Pairwise (fun earlier later => compare earlier later = .lt) ∧
      ∀ other, other ∈ members ↔ graph.Reaches id other ∧ graph.Reaches other id := by
  rw [get?_cyclic] at found
  obtain ⟨component, foundComponent, rfl⟩ := Option.map_eq_some_iff.1 found
  have member : id ∈ component := by
    simpa using List.find?_some foundComponent
  have listed := List.mem_filter.1 (List.mem_reverse.1 (List.mem_of_find?_eq_some foundComponent))
  refine ⟨(isCycle_iff listed.1 member).1 listed.2, inOrder component, rfl,
    pairwise_inOrder (nodup_component listed.1), ?_⟩
  intro other
  exact List.mem_mergeSort.trans (mem_component_iff listed.1 member)

/-- Every callable on a cycle is reported as such. -/
theorem isUnsafe_cyclic {id : CallableId} (onCycle : graph.OnCycle id) :
    graph.cyclic.isUnsafe id = true := by
  obtain ⟨callee, calls, -⟩ := onCycle.exists_calls
  obtain ⟨component, listed, member⟩ :=
    List.mem_flatten.1 (graph.components_spec.2.2 id (mem_nodes_of_calls calls))
  rw [CycleReport.isUnsafe, Table.contains, get?_cyclic, Option.isSome_map, List.find?_isSome]
  refine ⟨component, ?_, decide_eq_true member⟩
  exact List.mem_reverse.2 (List.mem_filter.2 ⟨listed, (isCycle_iff listed member).2 onCycle⟩)

/-- The callables on cycles are reported with the members of their components, in order. -/
theorem get?_cyclic_eq_some_iff {id : CallableId} {reason : Unsafety} :
    graph.cyclic.get? id = some reason ↔
      graph.OnCycle id ∧ ∃ members, reason = .onCycle members ∧
        members.Pairwise (fun earlier later => compare earlier later = .lt) ∧
        ∀ other, other ∈ members ↔ graph.Reaches id other ∧ graph.Reaches other id := by
  constructor
  · exact get?_cyclic_eq_some
  · rintro ⟨onCycle, members, rfl, ordered, connected⟩
    obtain ⟨reported, found⟩ :=
      (graph.cyclic.contains_eq_true_iff id).1 (isUnsafe_cyclic onCycle)
    obtain ⟨-, others, rfl, othersOrdered, othersConnected⟩ := get?_cyclic_eq_some found
    have sameMembers : others = members := by
      apply Table.eq_of_increasing (fun member => member) othersOrdered ordered
      intro other
      rw [othersConnected, connected]
    rw [found, sameMembers]

/-! ## The walk against the calls -/

theorem isUnsafe_insert (report : CycleReport) (key : CallableId) (reason : Unsafety)
    (id : CallableId) :
    CycleReport.isUnsafe (report.insert key reason) id =
      (decide (id = key) || report.isUnsafe id) := by
  rw [CycleReport.isUnsafe, CycleReport.isUnsafe, Table.contains, Table.contains,
    Table.get?_insert]
  by_cases same : id = key
  · simp [same]
  · simp [same]

/-- Marking gives a reason to the callers that have none, and leaves all others theirs. -/
theorem get?_markCallers (callee : CallableId) (callers : List CallableId)
    (report : CycleReport) (id : CallableId) :
    (markCallers callee callers report).1.get? id =
      (report.get? id).or (if id ∈ callers then some (.dependsOn callee) else none) := by
  induction callers generalizing report with
  | nil => simp [markCallers]
  | cons caller rest inductionHypothesis =>
    rw [markCallers]
    by_cases marked : report.isUnsafe caller = true
    · rw [if_pos marked, inductionHypothesis]
      by_cases same : id = caller
      · obtain ⟨reason, found⟩ := (report.contains_eq_true_iff caller).1 marked
        rw [same, found, Option.some_or, Option.some_or]
      · simp [same]
    · rw [if_neg marked]
      show (markCallers callee rest (report.insert caller (.dependsOn callee))).1.get? id = _
      rw [inductionHypothesis, Table.get?_insert]
      by_cases same : id = caller
      · have absent := (report.contains_eq_false_iff caller).1 (Bool.eq_false_iff.2 marked)
        rw [if_pos same, same, absent, Option.some_or, Option.none_or,
          if_pos List.mem_cons_self]
      · simp [same]

/-- A reason in the new report was there before, or its callable has been found unmarked. -/
theorem get?_markCallers_eq_some {callee id : CallableId} {callers : List CallableId}
    {report : CycleReport} {reason : Unsafety}
    (found : (markCallers callee callers report).1.get? id = some reason) :
    report.get? id = some reason ∨
      (report.get? id = none ∧ id ∈ callers ∧ reason = .dependsOn callee) := by
  rw [get?_markCallers] at found
  cases earlier : report.get? id with
  | some earlierReason =>
    rw [earlier, Option.some_or] at found
    exact .inl found
  | none =>
    rw [earlier, Option.none_or] at found
    by_cases member : id ∈ callers
    · rw [if_pos member, Option.some.injEq] at found
      exact .inr ⟨rfl, member, found.symm⟩
    · rw [if_neg member] at found
      cases found

theorem isUnsafe_markCallers (callee : CallableId) (callers : List CallableId)
    (report : CycleReport) (id : CallableId) :
    CycleReport.isUnsafe (markCallers callee callers report).1 id = true ↔
      report.isUnsafe id = true ∨ id ∈ callers := by
  rw [CycleReport.isUnsafe, CycleReport.isUnsafe, Table.contains, Table.contains,
    get?_markCallers]
  cases report.get? id with
  | some reason => simp
  | none => by_cases member : id ∈ callers <;> simp [member]

/-- The callers that are listed as found are those that were not marked before. -/
theorem mem_markCallers_iff (callee : CallableId) (callers : List CallableId)
    (report : CycleReport) (id : CallableId) :
    id ∈ (markCallers callee callers report).2 ↔
      id ∈ callers ∧ report.isUnsafe id = false := by
  induction callers generalizing report with
  | nil => simp [markCallers]
  | cons caller rest inductionHypothesis =>
    rw [markCallers]
    by_cases marked : report.isUnsafe caller = true
    · rw [if_pos marked, inductionHypothesis]
      by_cases same : id = caller
      · rw [same, marked]
        simp
      · simp [same]
    · rw [if_neg marked]
      show id ∈ caller ::
        (markCallers callee rest (report.insert caller (.dependsOn callee))).2 ↔ _
      rw [List.mem_cons, inductionHypothesis, isUnsafe_insert]
      by_cases same : id = caller
      · simp [same, marked]
      · simp [same]

def unmarked (nodes : List CallableId) (report : CycleReport) : Nat :=
  (nodes.filter fun id => !report.isUnsafe id).length

private theorem unmarked_insert {nodes : List CallableId} {report : CycleReport} {id : CallableId}
    (reason : Unsafety) (member : id ∈ nodes) (isNew : report.isUnsafe id = false) :
    unmarked nodes (report.insert id reason) + 1 ≤ unmarked nodes report := by
  have filterEq : nodes.filter (fun node =>
      !CycleReport.isUnsafe (report.insert id reason) node) =
      (nodes.filter fun node => !report.isUnsafe node).filter (· != id) := by
    rw [List.filter_filter]
    refine congrArg (List.filter · nodes) (funext fun node => ?_)
    rw [isUnsafe_insert, Bool.not_or]
    rfl
  rw [unmarked, filterEq]
  refine List.length_filter_lt_length_iff_exists.2 ⟨id, ?_, by simp⟩
  exact List.mem_filter.2 ⟨member, by rw [isNew]; rfl⟩

/-- What is found leaves the unmarked nodes. -/
theorem length_markCallers_add_le (callee : CallableId) {nodes callers : List CallableId}
    (report : CycleReport) (known : ∀ caller ∈ callers, caller ∈ nodes) :
    (markCallers callee callers report).2.length +
      unmarked nodes (markCallers callee callers report).1 ≤ unmarked nodes report := by
  induction callers generalizing report with
  | nil => exact Nat.le_of_eq (Nat.zero_add _)
  | cons caller rest inductionHypothesis =>
    have restKnown : ∀ caller ∈ rest, caller ∈ nodes :=
      fun other member => known other (List.mem_cons_of_mem _ member)
    rw [markCallers]
    by_cases marked : report.isUnsafe caller = true
    · rw [if_pos marked]
      exact inductionHypothesis report restKnown
    · rw [if_neg marked]
      have rest := inductionHypothesis (report.insert caller (.dependsOn callee)) restKnown
      have first := unmarked_insert (.dependsOn callee) (known caller List.mem_cons_self)
        (Bool.eq_false_iff.2 marked)
      simp only [List.length_cons]
      omega

/-- The rounds that are left stay enough when the first callable in the queue is worked off. -/
theorem rounds_enough_step {queue : List CallableId} {report : CycleReport} {callee : CallableId}
    {rounds : Nat}
    (enough : (callee :: queue).length + unmarked graph.nodes report ≤ rounds + 1) :
    (queue ++ (markCallers callee ((graph.callers.get? callee).getD []) report).2).length +
      unmarked graph.nodes (markCallers callee ((graph.callers.get? callee).getD []) report).1 ≤
        rounds := by
  have known : ∀ caller ∈ (graph.callers.get? callee).getD [], caller ∈ graph.nodes :=
    fun caller member => mem_nodes_of_calls (mem_callers_iff.1 member)
  have counted := length_markCallers_add_le callee report known
  rw [List.length_cons] at enough
  rw [List.length_append]
  omega

/-- The callables on cycles are nodes, and none of them is unmarked. -/
theorem rounds_enough_cyclic (graph : CallGraph) :
    graph.cyclic.keys.length + unmarked graph.nodes graph.cyclic ≤ graph.nodes.length := by
  have onCycles : graph.cyclic.keys.length ≤
      (graph.nodes.filter fun id => graph.cyclic.isUnsafe id).length := by
    refine (List.Nodup.subperm graph.cyclic.nodup_keys ?_).length_le
    intro id member
    have marked := (graph.cyclic.mem_keys_iff_contains id).1 member
    obtain ⟨reason, found⟩ := (graph.cyclic.contains_eq_true_iff id).1 marked
    obtain ⟨callee, calls, -⟩ := (get?_cyclic_eq_some found).1.exists_calls
    exact List.mem_filter.2 ⟨mem_nodes_of_calls calls, marked⟩
  have divided := List.length_eq_length_filter_add (l := graph.nodes)
    fun id => graph.cyclic.isUnsafe id
  unfold unmarked
  omega

theorem spread_nil (callers : Table CallableId (List CallableId)) (rounds : Nat)
    (report : CycleReport) : spread callers rounds [] report = report := by
  cases rounds <;> rfl

/-- What holds while the queue is worked off. -/
structure Spreading (graph : CallGraph) (queue : List CallableId) (report : CycleReport) :
    Prop where
  kept : ∀ id reason, graph.cyclic.get? id = some reason → report.get? id = some reason
  /-- What is reported beyond the cycles is explained by an unsafe callee. -/
  explained : ∀ id reason, report.get? id = some reason →
    graph.cyclic.get? id = some reason ∨
      ∃ callee, reason = .dependsOn callee ∧ graph.Calls id callee ∧
        report.isUnsafe callee = true
  leads : ∀ id, report.isUnsafe id = true → graph.LeadsToCycle id
  queued : ∀ id ∈ queue, report.isUnsafe id = true
  /-- The callers of unsafe callables are unsafe, those of queued ones excepted. -/
  spreads : ∀ callee, report.isUnsafe callee = true → callee ∉ queue →
    ∀ caller, graph.Calls caller callee → report.isUnsafe caller = true

/-- The invariant of spreading holds when only the callables on cycles are marked. -/
theorem spreading_cyclic (graph : CallGraph) :
    Spreading graph graph.cyclic.keys graph.cyclic where
  kept _ _ found := found
  explained _ _ found := .inl found
  leads id marked := by
    obtain ⟨reason, found⟩ := (graph.cyclic.contains_eq_true_iff id).1 marked
    exact (get?_cyclic_eq_some found).1.leadsToCycle
  queued id member := (graph.cyclic.mem_keys_iff_contains id).1 member
  spreads callee marked notQueued := by
    exact absurd ((graph.cyclic.mem_keys_iff_contains callee).2 marked) notQueued

/-- Marking the callers of the first callable in the queue keeps the invariant. -/
theorem Spreading.step {queue callers : List CallableId} {report : CycleReport}
    {callee : CallableId} (spreading : Spreading graph (callee :: queue) report)
    (listed : ∀ caller, caller ∈ callers ↔ graph.Calls caller callee) :
    Spreading graph (queue ++ (markCallers callee callers report).2)
      (markCallers callee callers report).1 where
  kept id reason found := by
    rw [get?_markCallers, spreading.kept id reason found, Option.some_or]
  explained id reason found := by
    rcases get?_markCallers_eq_some found with earlier | ⟨-, member, rfl⟩
    · refine (spreading.explained id reason earlier).imp_right ?_
      rintro ⟨other, rfl, calls, marked⟩
      exact ⟨other, rfl, calls, (isUnsafe_markCallers ..).2 (.inl marked)⟩
    · refine .inr ⟨callee, rfl, (listed id).1 member, ?_⟩
      exact (isUnsafe_markCallers ..).2 (.inl (spreading.queued callee List.mem_cons_self))
  leads id marked := by
    rcases (isUnsafe_markCallers ..).1 marked with earlier | member
    · exact spreading.leads id earlier
    · exact .of_calls ((listed id).1 member)
        (spreading.leads callee (spreading.queued callee List.mem_cons_self))
  queued id member := by
    rw [isUnsafe_markCallers]
    rcases List.mem_append.1 member with earlier | found
    · exact .inl (spreading.queued id (List.mem_cons_of_mem _ earlier))
    · exact .inr ((mem_markCallers_iff ..).1 found).1
  spreads other marked notQueued caller calls := by
    rw [List.mem_append, not_or, mem_markCallers_iff, not_and] at notQueued
    rw [isUnsafe_markCallers]
    by_cases same : other = callee
    · rw [same] at calls
      exact .inr ((listed caller).2 calls)
    · have earlier : report.isUnsafe other = true := by
        rcases (isUnsafe_markCallers ..).1 marked with earlier | member
        · exact earlier
        · rw [← Bool.not_eq_false]
          exact notQueued.2 member
      refine .inl (spreading.spreads other earlier ?_ caller calls)
      rw [List.mem_cons, not_or]
      exact ⟨same, notQueued.1⟩

/-- With enough rounds the queue is worked off. -/
theorem Spreading.spread {rounds : Nat} {queue : List CallableId} {report : CycleReport}
    (spreading : Spreading graph queue report)
    (enough : queue.length + unmarked graph.nodes report ≤ rounds) :
    Spreading graph [] (CallGraph.spread graph.callers rounds queue report) := by
  induction rounds generalizing queue report with
  | zero =>
    obtain rfl : queue = [] := List.length_eq_zero_iff.1 (by omega)
    exact spreading
  | succ rounds inductionHypothesis =>
    cases queue with
    | nil => exact spreading
    | cons callee queue =>
      apply inductionHypothesis (spreading.step fun caller => mem_callers_iff)
      exact rounds_enough_step enough

private theorem spreading_detectCycles (graph : CallGraph) :
    Spreading graph [] graph.detectCycles :=
  (spreading_cyclic graph).spread (rounds_enough_cyclic graph)

/-! ## The report -/

/-- A callable is unsafe exactly if it leads to a cycle. -/
theorem isUnsafe_iff (graph : CallGraph) (id : CallableId) :
    graph.detectCycles.isUnsafe id = true ↔ graph.LeadsToCycle id := by
  have spreading := spreading_detectCycles graph
  constructor
  · exact spreading.leads id
  · rintro ⟨node, reaches, onCycle⟩
    induction reaches using Relation.ReflTransGen.head_induction_on with
    | refl =>
      obtain ⟨reason, found⟩ :=
        (graph.cyclic.contains_eq_true_iff node).1 (isUnsafe_cyclic onCycle)
      exact (graph.detectCycles.contains_eq_true_iff node).2
        ⟨reason, spreading.kept node reason found⟩
    | head calls _ inductionHypothesis =>
      exact spreading.spreads _ inductionHypothesis List.not_mem_nil _ calls

/-- What is reported on a cycle is what the components say. -/
theorem get?_cyclic_of_onCycle {id : CallableId} {members : List CallableId}
    (found : graph.detectCycles.get? id = some (.onCycle members)) :
    graph.cyclic.get? id = some (.onCycle members) := by
  rcases (spreading_detectCycles graph).explained id _ found with
    cyclic | ⟨callee, impossible, -⟩
  · exact cyclic
  · cases impossible

/-- A callable is reported to be on a cycle exactly if it is. -/
theorem exists_onCycle_iff (graph : CallGraph) (id : CallableId) :
    (∃ members, graph.detectCycles.get? id = some (.onCycle members)) ↔ graph.OnCycle id := by
  constructor
  · rintro ⟨members, found⟩
    exact (get?_cyclic_eq_some (get?_cyclic_of_onCycle found)).1
  · intro onCycle
    obtain ⟨reason, found⟩ := (graph.cyclic.contains_eq_true_iff id).1 (isUnsafe_cyclic onCycle)
    obtain ⟨-, members, rfl, -⟩ := get?_cyclic_eq_some found
    exact ⟨members, (spreading_detectCycles graph).kept id _ found⟩

private theorem members_of_onCycle {id : CallableId} {members : List CallableId}
    (found : graph.detectCycles.get? id = some (.onCycle members)) :
    members.Pairwise (fun earlier later => compare earlier later = .lt) ∧
      ∀ other, other ∈ members ↔ graph.Reaches id other ∧ graph.Reaches other id := by
  obtain ⟨-, listed, same, ordered, connected⟩ := get?_cyclic_eq_some (get?_cyclic_of_onCycle found)
  obtain rfl := Unsafety.onCycle.inj same
  exact ⟨ordered, connected⟩

/-- A callable that depends on another one lies on no cycle, and calls that one, which is unsafe. -/
theorem calls_of_dependsOn {id callee : CallableId}
    (found : graph.detectCycles.get? id = some (.dependsOn callee)) :
    ¬graph.OnCycle id ∧ graph.Calls id callee ∧
      graph.detectCycles.isUnsafe callee = true := by
  refine ⟨?_, ?_⟩
  · intro onCycle
    obtain ⟨members, foundMembers⟩ := (graph.exists_onCycle_iff id).2 onCycle
    rw [found] at foundMembers
    cases foundMembers
  · rcases (spreading_detectCycles graph).explained id _ found with
      cyclic | ⟨other, same, calls, marked⟩
    · obtain ⟨-, members, impossible, -⟩ := get?_cyclic_eq_some cyclic
      cases impossible
    · obtain rfl := Unsafety.dependsOn.inj same
      exact ⟨calls, marked⟩

/-- A safe callable calls safe callables only. -/
theorem isUnsafe_callee {caller callee : CallableId}
    (isSafe : graph.detectCycles.isUnsafe caller = false) (calls : graph.Calls caller callee) :
    graph.detectCycles.isUnsafe callee = false := by
  rw [Bool.eq_false_iff, ne_eq, isUnsafe_iff] at isSafe ⊢
  exact fun leads => isSafe (leads.of_calls calls)

/-- A call between two callables that are not reported. -/
def SafelyCalls (graph : CallGraph) (caller callee : CallableId) : Prop :=
  graph.Calls caller callee ∧ graph.detectCycles.isUnsafe caller = false ∧
    graph.detectCycles.isUnsafe callee = false

private theorem not_transGen_safelyCalls (graph : CallGraph) (id : CallableId) :
    ¬Relation.TransGen graph.SafelyCalls id id := by
  intro cycle
  have weaker : graph.SafelyCalls ≤ graph.Calls := fun _ _ calls => calls.1
  have onCycle : graph.OnCycle id := Relation.TransGen.mono weaker id id cycle
  obtain ⟨callee, ⟨-, isSafe, -⟩, -⟩ := Relation.TransGen.head'_iff.1 cycle
  rw [Bool.eq_false_iff, ne_eq, isUnsafe_iff] at isSafe
  exact isSafe onCycle.leadsToCycle

/-- Cycle detection is exact.

A callable is reported exactly if it reaches a cycle, and reported on a cycle exactly if it lies
on one. The members that are reported with it are the callables that it reaches and is reached
from, in strictly increasing order. A callable that is reported for a callee lies on no cycle and
calls this callee, which is unsafe. So the callees of safe callables are safe, and there is no
cycle of calls among safe callables. -/
theorem detectCycles_exact (graph : CallGraph) (id : CallableId) :
    (graph.detectCycles.isUnsafe id = true ↔
      ∃ node, graph.Reaches id node ∧ graph.OnCycle node) ∧
    ((∃ members, graph.detectCycles.get? id = some (.onCycle members)) ↔ graph.OnCycle id) ∧
    (∀ members, graph.detectCycles.get? id = some (.onCycle members) →
      members.Pairwise (fun earlier later => compare earlier later = .lt) ∧
        ∀ other, other ∈ members ↔ graph.Reaches id other ∧ graph.Reaches other id) ∧
    (∀ callee, graph.detectCycles.get? id = some (.dependsOn callee) →
      ¬graph.OnCycle id ∧ graph.Calls id callee ∧
        graph.detectCycles.isUnsafe callee = true) ∧
    (graph.detectCycles.isUnsafe id = false →
      ∀ callee, graph.Calls id callee → graph.detectCycles.isUnsafe callee = false) ∧
    ¬Relation.TransGen graph.SafelyCalls id id :=
  ⟨graph.isUnsafe_iff id, graph.exists_onCycle_iff id, fun _ => members_of_onCycle,
    fun _ => calls_of_dependsOn, fun isSafe _ => isUnsafe_callee isSafe,
    graph.not_transGen_safelyCalls id⟩

/-- A method without parameters, for graphs that are written out. -/
def method (name : String) : CallableId := { scope := "M", name, signature := "" }

end CallGraph

end MappingForms
