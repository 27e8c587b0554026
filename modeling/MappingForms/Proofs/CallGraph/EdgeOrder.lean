import MappingForms.Proofs.CallGraph.CycleReport

/-!
Contract: the report of unsafe callables depends on who calls whom, and on nothing else.

Owns: the calls of a graph that is built from an adjacency list, the order in which the walk
against the calls finds callers, and the law that graphs with the same calls have the same
report.

The walk over the calls may complete components in another order when callees are listed in
another order. What is reported on cycles does not show this, since it is determined by
reachability. The walk against the calls is followed in both graphs at once: it starts from
the same queue, and it finds the callers of a callable in the order of identities and each of
them once, however often and in which order they are listed. So queues and reports agree in
every round.
-/

set_option autoImplicit false

namespace MappingForms

namespace CallGraph

/-! ## Adjacency lists -/

private theorem getD_addNodes (callees : List CallableId)
    (edges : Table CallableId (List CallableId)) (id : CallableId) :
    ((callees.foldl (fun edges callee => edges.insertIfNew callee []) edges).get? id).getD [] =
      (edges.get? id).getD [] := by
  induction callees generalizing edges with
  | nil => rfl
  | cons callee rest inductionHypothesis =>
    rw [List.foldl_cons, inductionHypothesis, Table.get?_insertIfNew]
    by_cases same : id = callee
    · rw [if_pos same, same, Option.getD_some]
    · rw [if_neg same]

private theorem callees_addCalls (graph : CallGraph) (caller : CallableId)
    (listed : List CallableId) (id : CallableId) :
    (graph.addCalls caller listed).callees id =
      graph.callees id ++ if id = caller then listed else [] := by
  unfold callees addCalls
  rw [Table.get?_update]
  by_cases same : id = caller
  · rw [if_pos same, if_pos same, same, Option.getD_some, getD_addNodes]
  · rw [if_neg same, if_neg same, getD_addNodes, List.append_nil]

/-- The calls that are added are there, and no others. -/
theorem calls_addCalls_iff (graph : CallGraph) (caller : CallableId) (listed : List CallableId)
    {id callee : CallableId} :
    (graph.addCalls caller listed).Calls id callee ↔
      graph.Calls id callee ∨ (id = caller ∧ callee ∈ listed) := by
  unfold Calls
  rw [callees_addCalls, List.mem_append]
  by_cases same : id = caller
  · simp [same]
  · simp [same]

def Lists (edges : List (CallableId × List CallableId)) (caller callee : CallableId) : Prop :=
  ∃ callees, (caller, callees) ∈ edges ∧ callee ∈ callees

private theorem lists_cons_iff {entry : CallableId × List CallableId}
    {rest : List (CallableId × List CallableId)} {caller callee : CallableId} :
    Lists (entry :: rest) caller callee ↔
      (caller = entry.1 ∧ callee ∈ entry.2) ∨ Lists rest caller callee := by
  constructor
  · rintro ⟨callees, member, listed⟩
    rcases List.mem_cons.1 member with same | later
    · rw [← same]
      exact .inl ⟨rfl, listed⟩
    · exact .inr ⟨callees, later, listed⟩
  · rintro (⟨rfl, listed⟩ | ⟨callees, later, listed⟩)
    · exact ⟨entry.2, List.mem_cons_self, listed⟩
    · exact ⟨callees, List.mem_cons_of_mem _ later, listed⟩

private theorem calls_foldl_addCalls_iff (edges : List (CallableId × List CallableId))
    (graph : CallGraph) {caller callee : CallableId} :
    (edges.foldl (fun graph entry => graph.addCalls entry.1 entry.2) graph).Calls caller callee ↔
      graph.Calls caller callee ∨ Lists edges caller callee := by
  induction edges generalizing graph with
  | nil => simp [Lists]
  | cons entry rest inductionHypothesis =>
    rw [List.foldl_cons, inductionHypothesis, calls_addCalls_iff, lists_cons_iff, or_assoc]

/-- The graph of an adjacency list has the calls that are listed. -/
theorem calls_ofEdges_iff (edges : List (CallableId × List CallableId))
    {caller callee : CallableId} :
    (ofEdges edges).Calls caller callee ↔ Lists edges caller callee := by
  have noCalls : ¬(⟨∅⟩ : CallGraph).Calls caller callee := List.not_mem_nil
  unfold ofEdges
  rw [calls_foldl_addCalls_iff]
  exact or_iff_right noCalls

/-! ## Callers in order -/

private theorem sorted_callers (graph : CallGraph) (callee : CallableId) :
    ((graph.callers.get? callee).getD []).Pairwise fun earlier later =>
      (compare earlier later).isLE = true := by
  rw [getD_callers, List.pairwise_flatMap]
  constructor
  · intro entry _
    rw [List.pairwise_replicate, Std.ReflOrd.compare_self]
    exact .inr rfl
  · refine graph.edges.ordered.imp ?_
    intro earlier later below first firstListed second secondListed
    obtain ⟨-, rfl⟩ := List.mem_replicate.1 firstListed
    obtain ⟨-, rfl⟩ := List.mem_replicate.1 secondListed
    rw [below]
    rfl

private theorem markCallers_sublist (callee : CallableId) (callers : List CallableId)
    (report : CycleReport) : (markCallers callee callers report).2.Sublist callers := by
  induction callers generalizing report with
  | nil => exact .slnil
  | cons caller rest inductionHypothesis =>
    rw [markCallers]
    by_cases marked : report.isUnsafe caller = true
    · rw [if_pos marked]
      exact (inductionHypothesis report).cons caller
    · rw [if_neg marked]
      exact (inductionHypothesis _).cons_cons caller

/-- A caller that has been found is marked, so it is not found again. -/
theorem nodup_markCallers (callee : CallableId) (callers : List CallableId)
    (report : CycleReport) : (markCallers callee callers report).2.Nodup := by
  induction callers generalizing report with
  | nil => exact .nil
  | cons caller rest inductionHypothesis =>
    rw [markCallers]
    by_cases marked : report.isUnsafe caller = true
    · rw [if_pos marked]
      exact inductionHypothesis report
    · rw [if_neg marked]
      refine List.nodup_cons.2 ⟨?_, inductionHypothesis _⟩
      intro again
      have unmarked := ((mem_markCallers_iff ..).1 again).2
      rw [isUnsafe_insert] at unmarked
      simp at unmarked

private theorem increasing_markCallers (callee : CallableId) {callers : List CallableId}
    (sorted : callers.Pairwise fun earlier later => (compare earlier later).isLE = true)
    (report : CycleReport) :
    (markCallers callee callers report).2.Pairwise fun earlier later =>
      compare earlier later = .lt :=
  Table.increasing_of_sorted (sorted.sublist (markCallers_sublist callee callers report))
    (nodup_markCallers callee callers report)

/-- Sorted lists of the same callers are marked and found alike. -/
theorem markCallers_congr (callee : CallableId) {first second : List CallableId}
    (firstSorted : first.Pairwise fun earlier later => (compare earlier later).isLE = true)
    (secondSorted : second.Pairwise fun earlier later => (compare earlier later).isLE = true)
    (same : ∀ caller, caller ∈ first ↔ caller ∈ second) (report : CycleReport) :
    markCallers callee first report = markCallers callee second report := by
  have markedEq : (markCallers callee first report).1 = (markCallers callee second report).1 := by
    apply Table.ext_get?
    intro id
    simp only [get?_markCallers, same]
  have foundEq : (markCallers callee first report).2 = (markCallers callee second report).2 := by
    apply Table.eq_of_increasing (fun id => id) (increasing_markCallers callee firstSorted report)
      (increasing_markCallers callee secondSorted report)
    intro id
    rw [mem_markCallers_iff, mem_markCallers_iff, same]
  exact Prod.ext markedEq foundEq

/-! ## Graphs with the same calls -/

section SameCalls

variable {first second : CallGraph}
  (sameCalls : ∀ caller callee, first.Calls caller callee ↔ second.Calls caller callee)

include sameCalls

private theorem cyclic_eq_of_sameCalls : first.cyclic = second.cyclic := by
  have relationEq : first.Calls = second.Calls :=
    funext fun caller => funext fun callee => propext (sameCalls caller callee)
  apply Table.ext_get?
  intro id
  apply Option.ext
  intro reason
  rw [get?_cyclic_eq_some_iff, get?_cyclic_eq_some_iff]
  unfold OnCycle Reaches
  rw [relationEq]

private theorem markCallers_eq_of_sameCalls (callee : CallableId) (report : CycleReport) :
    markCallers callee ((first.callers.get? callee).getD []) report =
      markCallers callee ((second.callers.get? callee).getD []) report := by
  apply markCallers_congr callee (sorted_callers first callee) (sorted_callers second callee)
  intro caller
  rw [mem_callers_iff, mem_callers_iff, sameCalls]

/-- From one queue and one report the walks against the calls stay together. Each has enough
rounds for its own nodes. -/
theorem spread_eq_of_sameCalls {rounds others : Nat} {queue : List CallableId}
    {report : CycleReport} (enough : queue.length + unmarked first.nodes report ≤ rounds)
    (othersEnough : queue.length + unmarked second.nodes report ≤ others) :
    spread first.callers rounds queue report = spread second.callers others queue report := by
  induction rounds generalizing others queue report with
  | zero =>
    obtain rfl : queue = [] := List.length_eq_zero_iff.1 (by omega)
    rw [spread_nil, spread_nil]
  | succ rounds inductionHypothesis =>
    cases queue with
    | nil => rw [spread_nil, spread_nil]
    | cons callee queue =>
      cases others with
      | zero =>
        rw [List.length_cons] at othersEnough
        omega
      | succ others =>
        have stepEq := markCallers_eq_of_sameCalls sameCalls callee report
        have stillEnough := rounds_enough_step enough
        have othersStillEnough := rounds_enough_step othersEnough
        rw [spread, spread, ← stepEq]
        rw [← stepEq] at othersStillEnough
        exact inductionHypothesis stillEnough othersStillEnough

private theorem detectCycles_eq_of_sameCalls : first.detectCycles = second.detectCycles := by
  have cyclicEq := cyclic_eq_of_sameCalls sameCalls
  have othersEnough := rounds_enough_cyclic second
  unfold detectCycles
  rw [← cyclicEq] at othersEnough ⊢
  exact spread_eq_of_sameCalls sameCalls (rounds_enough_cyclic first) othersEnough

end SameCalls

/-- The report depends on the calls that are listed, and not on how they are listed.

Two adjacency lists that list the same calls have the same report: the same unsafe callables,
the same members of cycles and the same callees as reasons. Callers may come in any order and
in several entries, and callees in any order and repeatedly. A callable without calls may even
be listed in one of them only, since it is never unsafe. -/
theorem report_depends_on_listed_calls (edges others : List (CallableId × List CallableId))
    (sameCalls : ∀ caller callee, Lists edges caller callee ↔ Lists others caller callee) :
    (ofEdges edges).detectCycles = (ofEdges others).detectCycles := by
  apply detectCycles_eq_of_sameCalls
  intro caller callee
  rw [calls_ofEdges_iff, calls_ofEdges_iff]
  exact sameCalls caller callee

namespace Relisted

/-- `Both` calls `Left` and `Right`, and each of them calls itself. -/
def edges : List (CallableId × List CallableId) :=
  [(method "Left", [method "Left"]), (method "Right", [method "Right"]),
    (method "Both", [method "Left", method "Right"])]

/-- The same calls with the callees of `Both` the other way round, in two entries and repeated. -/
def others : List (CallableId × List CallableId) :=
  [(method "Both", [method "Right", method "Right"]), (method "Right", [method "Right"]),
    (method "Both", [method "Left"]), (method "Left", [method "Left"])]

/-- `Both` is explained by `Left` in either report, although the second list names `Right` first. -/
theorem relisted_calls_have_same_report :
    (∀ caller callee, Lists edges caller callee ↔ Lists others caller callee) ∧
      (ofEdges edges).detectCycles = (ofEdges others).detectCycles ∧
      (ofEdges others).detectCycles.get? (method "Both") = some (.dependsOn (method "Left")) := by
  have sameCalls : ∀ caller callee, Lists edges caller callee ↔ Lists others caller callee := by
    intro caller callee
    simp only [Lists, edges, others, List.mem_cons, Prod.mk.injEq, List.not_mem_nil, or_false]
    grind
  exact ⟨sameCalls, report_depends_on_listed_calls edges others sameCalls, by decide +kernel⟩

end Relisted

end CallGraph

end MappingForms
