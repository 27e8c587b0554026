import MappingForms.Proofs.CallGraph.CycleReport
import Mathlib.Data.Nat.Find

/-!
Contract: the reasons in a report lead the shortest way into a cycle.

Owns: reachability by a given number of calls, the distance of a callable from the cycles,
the levels in which the walk against the calls marks callables, and the way that a reader
of the report follows from callee to callee.

The queue of the walk always consists of callables at one distance followed by callables
that are one call farther away. All callables up to the first distance are marked by then,
so a caller that is found unmarked is farther away than the callable it is found from, and
by one call only. When the first part is used up the second one takes its place.
-/

set_option autoImplicit false

namespace MappingForms

namespace CycleReport

/-- The callee that explains why a callable is unsafe. A callable on a cycle needs none. -/
def explanation (report : CycleReport) (id : CallableId) : Option CallableId :=
  match report.get? id with
  | some (.dependsOn callee) => some callee
  | _ => none

/-- Where a number of explanations leads, each taken at the callee that the one before names. -/
def follow (report : CycleReport) : Nat → CallableId → Option CallableId
  | 0, id => some id
  | steps + 1, id => (report.explanation id).bind (report.follow steps)

private theorem follow_succ_of_dependsOn {report : CycleReport} {id callee : CallableId}
    (found : report.get? id = some (.dependsOn callee)) (steps : Nat) :
    report.follow (steps + 1) id = report.follow steps callee := by
  rw [follow, explanation, found]
  rfl

end CycleReport

namespace CallGraph

variable {graph : CallGraph}

/-! ## Distances -/

/-- One callable reaches another one by a given number of calls. -/
inductive ReachesIn (graph : CallGraph) : Nat → CallableId → CallableId → Prop where
  | refl (id : CallableId) : ReachesIn graph 0 id id
  | head {length : Nat} {caller callee last : CallableId} (calls : graph.Calls caller callee)
      (rest : ReachesIn graph length callee last) : ReachesIn graph (length + 1) caller last

private theorem exists_reachesIn {id node : CallableId} (reaches : graph.Reaches id node) :
    ∃ length, graph.ReachesIn length id node := by
  induction reaches using Relation.ReflTransGen.head_induction_on with
  | refl => exact ⟨0, .refl node⟩
  | head calls _ inductionHypothesis =>
    obtain ⟨length, rest⟩ := inductionHypothesis
    exact ⟨length + 1, .head calls rest⟩

theorem ReachesIn.reaches {length : Nat} {id node : CallableId}
    (reachesIn : graph.ReachesIn length id node) : graph.Reaches id node := by
  induction reachesIn with
  | refl id => exact .refl
  | head calls _ inductionHypothesis => exact .head calls inductionHypothesis

/-- The least number of calls by which a callable reaches one that lies on a cycle. -/
structure Distance (graph : CallGraph) (id : CallableId) (distance : Nat) : Prop where
  reached : ∃ node, graph.ReachesIn distance id node ∧ graph.OnCycle node
  shortest : ∀ length node, graph.ReachesIn length id node → graph.OnCycle node →
    distance ≤ length

/-- The distance of a callable from a cycle is unique. -/
theorem Distance.unique {id : CallableId} {first second : Nat}
    (atFirst : graph.Distance id first) (atSecond : graph.Distance id second) :
    first = second := by
  obtain ⟨node, reaches, onCycle⟩ := atFirst.reached
  obtain ⟨other, reachesOther, otherOnCycle⟩ := atSecond.reached
  have firstLe := atFirst.shortest second other reachesOther otherOnCycle
  have secondLe := atSecond.shortest first node reaches onCycle
  omega

private theorem LeadsToCycle.exists_distance {id : CallableId} (leads : graph.LeadsToCycle id) :
    ∃ distance, graph.Distance id distance := by
  classical
  have reached : ∃ length node, graph.ReachesIn length id node ∧ graph.OnCycle node := by
    obtain ⟨node, reaches, onCycle⟩ := leads
    obtain ⟨length, reachesIn⟩ := exists_reachesIn reaches
    exact ⟨length, node, reachesIn, onCycle⟩
  refine ⟨Nat.find reached, Nat.find_spec reached, ?_⟩
  intro length node reachesIn onCycle
  exact Nat.find_min' reached ⟨node, reachesIn, onCycle⟩

theorem Distance.leadsToCycle {id : CallableId} {distance : Nat}
    (away : graph.Distance id distance) : graph.LeadsToCycle id := by
  obtain ⟨node, reachesIn, onCycle⟩ := away.reached
  exact ⟨node, reachesIn.reaches, onCycle⟩

private theorem distance_zero_iff {id : CallableId} : graph.Distance id 0 ↔ graph.OnCycle id := by
  constructor
  · rintro ⟨⟨node, reaches, onCycle⟩, -⟩
    cases reaches
    exact onCycle
  · intro onCycle
    exact ⟨⟨id, .refl id, onCycle⟩, fun _ _ _ _ => Nat.zero_le _⟩

/-- A caller is at most one call farther away than its callee. -/
theorem Distance.le_succ_of_calls {caller callee : CallableId} {distance callerDistance : Nat}
    (atCaller : graph.Distance caller callerDistance) (atCallee : graph.Distance callee distance)
    (calls : graph.Calls caller callee) : callerDistance ≤ distance + 1 := by
  obtain ⟨node, reaches, onCycle⟩ := atCallee.reached
  exact atCaller.shortest _ node (.head calls reaches) onCycle

/-- The first call of a shortest way leaves a shortest way. -/
theorem Distance.exists_callee {id : CallableId} {distance : Nat}
    (away : graph.Distance id (distance + 1)) :
    ∃ callee, graph.Calls id callee ∧ graph.Distance callee distance := by
  obtain ⟨node, reaches, onCycle⟩ := away.reached
  cases reaches with
  | @head _ _ callee _ calls rest =>
    refine ⟨callee, calls, ⟨node, rest, onCycle⟩, ?_⟩
    intro length other reachesOther otherOnCycle
    have shortest := away.shortest (length + 1) other (.head calls reachesOther) otherOnCycle
    omega

/-! ## The levels of the walk -/

/-- What holds while the queue is worked off level by level. -/
structure Levelled (graph : CallGraph) (depth : Nat) (near far : List CallableId)
    (report : CycleReport) : Prop extends Spreading graph (near ++ far) report where
  near_distance : ∀ id ∈ near, graph.Distance id depth
  far_distance : ∀ id ∈ far, graph.Distance id (depth + 1)
  /-- No callable up to this depth is left out. -/
  complete : ∀ id distance, graph.Distance id distance → distance ≤ depth →
    report.isUnsafe id = true
  /-- A callable is explained by a callee that is nearer to the cycles. -/
  nearer : ∀ id callee, report.get? id = some (.dependsOn callee) →
    ∀ distance, graph.Distance callee distance → graph.Distance id (distance + 1)

private theorem levelled_cyclic (graph : CallGraph) :
    Levelled graph 0 graph.cyclic.keys [] graph.cyclic where
  toSpreading := by
    rw [List.append_nil]
    exact spreading_cyclic graph
  near_distance id member := by
    have marked := (graph.cyclic.mem_keys_iff_contains id).1 member
    obtain ⟨reason, found⟩ := (graph.cyclic.contains_eq_true_iff id).1 marked
    exact distance_zero_iff.2 (get?_cyclic_eq_some found).1
  far_distance _ member := absurd member List.not_mem_nil
  complete id distance away within := by
    obtain rfl : distance = 0 := by omega
    exact isUnsafe_cyclic (distance_zero_iff.1 away)
  nearer id callee found := by
    obtain ⟨-, members, impossible, -⟩ := get?_cyclic_eq_some found
    cases impossible

/-- An unmarked caller of a callable of the current level belongs to the next one. -/
theorem Levelled.distance_of_unmarked {depth : Nat} {near far : List CallableId}
    {report : CycleReport} {caller callee : CallableId}
    (levelled : Levelled graph depth near far report) (atCallee : graph.Distance callee depth)
    (calls : graph.Calls caller callee) (unmarked : report.isUnsafe caller = false) :
    graph.Distance caller (depth + 1) := by
  obtain ⟨distance, away⟩ := (atCallee.leadsToCycle.of_calls calls).exists_distance
  have atMost := away.le_succ_of_calls atCallee calls
  have beyond : ¬distance ≤ depth := by
    intro within
    rw [levelled.complete caller distance away within] at unmarked
    cases unmarked
  obtain rfl : distance = depth + 1 := by omega
  exact away

/-- Marking the callers of a callable of the current level keeps the levels. -/
theorem Levelled.step {depth : Nat} {near far callers : List CallableId} {report : CycleReport}
    {callee : CallableId} (levelled : Levelled graph depth (callee :: near) far report)
    (listed : ∀ caller, caller ∈ callers ↔ graph.Calls caller callee) :
    Levelled graph depth near (far ++ (markCallers callee callers report).2)
      (markCallers callee callers report).1 where
  toSpreading := by
    rw [← List.append_assoc]
    exact levelled.toSpreading.step listed
  near_distance id member := levelled.near_distance id (List.mem_cons_of_mem _ member)
  far_distance id member := by
    rcases List.mem_append.1 member with earlier | found
    · exact levelled.far_distance id earlier
    · obtain ⟨isCaller, unmarked⟩ := (mem_markCallers_iff ..).1 found
      exact levelled.distance_of_unmarked (levelled.near_distance callee List.mem_cons_self)
        ((listed id).1 isCaller) unmarked
  complete id distance away within :=
    (isUnsafe_markCallers ..).2 (.inl (levelled.complete id distance away within))
  nearer id other found distance away := by
    rcases get?_markCallers_eq_some found with earlier | ⟨absent, isCaller, same⟩
    · exact levelled.nearer id other earlier distance away
    · obtain rfl := Unsafety.dependsOn.inj same
      have atCallee := levelled.near_distance other List.mem_cons_self
      obtain rfl := away.unique atCallee
      exact levelled.distance_of_unmarked atCallee ((listed id).1 isCaller)
        ((report.contains_eq_false_iff id).2 absent)

/-- When a level is used up, the next one is complete. -/
theorem Levelled.deepen {depth : Nat} {far : List CallableId} {report : CycleReport}
    (levelled : Levelled graph depth [] far report) :
    Levelled graph (depth + 1) far [] report where
  toSpreading := by
    rw [List.append_nil]
    exact levelled.toSpreading
  near_distance := levelled.far_distance
  far_distance _ member := absurd member List.not_mem_nil
  complete id distance away within := by
    by_cases earlier : distance ≤ depth
    · exact levelled.complete id distance away earlier
    · obtain rfl : distance = depth + 1 := by omega
      -- Its callee on a shortest way is marked and has been worked off.
      obtain ⟨callee, calls, atCallee⟩ := away.exists_callee
      have marked := levelled.complete callee depth atCallee (Nat.le_refl _)
      refine levelled.spreads callee marked ?_ id calls
      intro queued
      have distances := atCallee.unique (levelled.far_distance callee queued)
      omega
  nearer := levelled.nearer

/-- The first callable of the queue belongs to the current level or begins the next one. -/
theorem Levelled.atHead {depth : Nat} {near far queue : List CallableId} {report : CycleReport}
    {callee : CallableId} (levelled : Levelled graph depth near far report)
    (first : near ++ far = callee :: queue) :
    ∃ depth near far, Levelled graph depth (callee :: near) far report ∧ near ++ far = queue := by
  cases near with
  | nil =>
    obtain rfl : far = callee :: queue := first
    exact ⟨depth + 1, queue, [], levelled.deepen, List.append_nil queue⟩
  | cons head near =>
    obtain ⟨rfl, rest⟩ := List.cons_eq_cons.1 first
    exact ⟨depth, near, far, levelled, rest⟩

/-- With enough rounds the last level is worked off. -/
theorem Levelled.spread {rounds depth : Nat} {near far : List CallableId} {report : CycleReport}
    (levelled : Levelled graph depth near far report)
    (enough : (near ++ far).length + unmarked graph.nodes report ≤ rounds) :
    ∃ deepest, Levelled graph deepest [] []
      (CallGraph.spread graph.callers rounds (near ++ far) report) := by
  induction rounds generalizing depth near far report with
  | zero =>
    have empty : near ++ far = [] := List.length_eq_zero_iff.1 (by omega)
    obtain ⟨rfl, rfl⟩ := List.append_eq_nil_iff.1 empty
    exact ⟨depth, levelled⟩
  | succ rounds inductionHypothesis =>
    cases queueEq : near ++ far with
    | nil =>
      obtain ⟨rfl, rfl⟩ := List.append_eq_nil_iff.1 queueEq
      exact ⟨depth, levelled⟩
    | cons callee queue =>
      rw [queueEq] at enough
      obtain ⟨level, near, far, atHead, rfl⟩ := levelled.atHead queueEq
      have stillEnough := rounds_enough_step enough
      rw [List.append_assoc] at stillEnough
      have rest := inductionHypothesis (atHead.step fun caller => mem_callers_iff) stillEnough
      rw [← List.append_assoc] at rest
      exact rest

/-- A callable that is reported for a callee is one call farther away than this callee. -/
theorem Distance.of_dependsOn {id callee : CallableId} {distance : Nat}
    (atCallee : graph.Distance callee distance)
    (found : graph.detectCycles.get? id = some (.dependsOn callee)) :
    graph.Distance id (distance + 1) := by
  have enough := rounds_enough_cyclic graph
  rw [← List.append_nil graph.cyclic.keys] at enough
  obtain ⟨deepest, levelled⟩ := (levelled_cyclic graph).spread enough
  rw [List.append_nil] at levelled
  exact levelled.nearer id callee found distance atCallee

/-! ## The followed way -/

/-- A callable away from the cycles is reported for a callee that is one call nearer. -/
theorem Distance.exists_dependsOn {id : CallableId} {distance : Nat}
    (away : graph.Distance id (distance + 1)) :
    ∃ callee, graph.detectCycles.get? id = some (.dependsOn callee) ∧
      graph.Calls id callee ∧ graph.Distance callee distance := by
  have marked := (graph.isUnsafe_iff id).2 away.leadsToCycle
  obtain ⟨reason, found⟩ := (graph.detectCycles.contains_eq_true_iff id).1 marked
  cases reason with
  | onCycle members =>
    have atZero := distance_zero_iff.2 ((graph.exists_onCycle_iff id).1 ⟨members, found⟩)
    cases away.unique atZero
  | dependsOn callee =>
    obtain ⟨-, calls, calleeMarked⟩ := calls_of_dependsOn found
    obtain ⟨calleeDistance, atCallee⟩ :=
      ((graph.isUnsafe_iff callee).1 calleeMarked).exists_distance
    obtain rfl : distance = calleeDistance := by
      have sameDistance := away.unique (atCallee.of_dependsOn found)
      omega
    exact ⟨callee, found, calls, atCallee⟩

/-- Explanations lead into a cycle in as many steps as a callable is away from the cycles. -/
theorem Distance.follow {id : CallableId} {distance : Nat} (away : graph.Distance id distance) :
    ∃ last members, graph.detectCycles.follow distance id = some last ∧
      graph.detectCycles.get? last = some (.onCycle members) ∧
      graph.ReachesIn distance id last := by
  induction distance generalizing id with
  | zero =>
    obtain ⟨members, found⟩ := (graph.exists_onCycle_iff id).2 (distance_zero_iff.1 away)
    exact ⟨id, members, rfl, found, .refl id⟩
  | succ distance inductionHypothesis =>
    obtain ⟨callee, found, calls, atCallee⟩ := away.exists_dependsOn
    obtain ⟨last, members, followed, foundLast, reaches⟩ := inductionHypothesis atCallee
    refine ⟨last, members, ?_, foundLast, .head calls reaches⟩
    rw [CycleReport.follow_succ_of_dependsOn found, followed]

/-- A report explains the shortest way into a cycle.

From a callable that is reported for a callee, the callees that the report names lead to a
callable that is reported on a cycle, one call after the other. They do so in as many steps as
a shortest way of calls has from the callable to any callable on a cycle. -/
theorem explanations_follow_shortest_way (graph : CallGraph) (id callee : CallableId)
    (found : graph.detectCycles.get? id = some (.dependsOn callee)) :
    ∃ steps last members,
      graph.detectCycles.follow steps id = some last ∧
      graph.detectCycles.get? last = some (.onCycle members) ∧
      (graph.ReachesIn steps id last ∧ graph.OnCycle last) ∧
      ∀ length node, graph.ReachesIn length id node → graph.OnCycle node → steps ≤ length := by
  have marked : graph.detectCycles.isUnsafe id = true :=
    (graph.detectCycles.contains_eq_true_iff id).2 ⟨_, found⟩
  obtain ⟨steps, away⟩ := ((graph.isUnsafe_iff id).1 marked).exists_distance
  obtain ⟨last, members, followed, foundLast, reaches⟩ := away.follow
  have onCycle := (graph.exists_onCycle_iff last).1 ⟨members, foundLast⟩
  exact ⟨steps, last, members, followed, foundLast, ⟨reaches, onCycle⟩, away.shortest⟩

namespace TwoWays

/-- `Top` calls `Left` and `Right`. `Right` calls `Loop`, which calls itself, and `Left` calls it
through `Low`. -/
def calls : CallGraph :=
  ofEdges
    [(method "Top", [method "Left", method "Right"]), (method "Left", [method "Low"]),
      (method "Low", [method "Loop"]), (method "Right", [method "Loop"]),
      (method "Loop", [method "Loop"])]

/-- `Top` calls `Left` first, but `Right` is nearer to the cycle. -/
theorem top_is_explained_by_right :
    calls.detectCycles.get? (method "Top") = some (.dependsOn (method "Right")) ∧
      ∃ steps last members,
        calls.detectCycles.follow steps (method "Top") = some last ∧
        calls.detectCycles.get? last = some (.onCycle members) ∧
        (calls.ReachesIn steps (method "Top") last ∧ calls.OnCycle last) ∧
        ∀ length node, calls.ReachesIn length (method "Top") node → calls.OnCycle node →
          steps ≤ length := by
  have found : calls.detectCycles.get? (method "Top") = some (.dependsOn (method "Right")) := by
    decide +kernel
  exact ⟨found, explanations_follow_shortest_way calls (method "Top") (method "Right") found⟩

end TwoWays

end CallGraph

end MappingForms
