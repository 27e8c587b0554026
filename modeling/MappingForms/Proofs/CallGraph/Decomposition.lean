import MappingForms.Proofs.CallGraph.EdgeOrder
import MappingForms.Proofs.CallGraph.SafeCalls

/-!
Contract: the walk over a call graph is a decomposition into strongly connected components.

Owns: graphs whose callees are nodes, the walk from all roots without a bound on its steps,
the nodes that it enters, the places of the listed components, and the law that they
decompose the graph.

The walk enters its roots and callees of what it has entered. In a graph whose callees are
nodes it therefore lists nodes and nothing else. Both constructions give such graphs.
-/

set_option autoImplicit false

namespace MappingForms

namespace CallGraph

variable {graph : CallGraph}

def CalleesAreNodes (graph : CallGraph) : Prop :=
  ∀ caller callee, graph.Calls caller callee → callee ∈ graph.nodes

/-- The lists are the strongly connected components of the graph, callees before callers. -/
structure IsDecomposition (graph : CallGraph) (components : List (List CallableId)) : Prop where
  nonempty : ∀ members ∈ components, members ≠ []
  /-- Every node is listed once, and nothing else is listed. -/
  once : ∀ node, components.flatten.count node = if node ∈ graph.nodes then 1 else 0
  /-- Two nodes are listed together exactly if each reaches the other. -/
  together : ∀ left ∈ graph.nodes, ∀ right ∈ graph.nodes,
    ((∃ members ∈ components, left ∈ members ∧ right ∈ members) ↔
      graph.Reaches left right ∧ graph.Reaches right left)
  /-- A call between two components goes from a later one to an earlier one. -/
  ordered : ∀ (callerPlace calleePlace : Nat) (callers callees : List CallableId),
    components[callerPlace]? = some callers → components[calleePlace]? = some callees →
    callerPlace ≠ calleePlace → ∀ caller ∈ callers, ∀ callee ∈ callees,
    graph.Calls caller callee → calleePlace < callerPlace

/-! ## Graphs whose callees are nodes -/

private theorem contains_addNodes (callees : List CallableId)
    (edges : Table CallableId (List CallableId)) (id : CallableId) :
    (callees.foldl (fun edges callee => edges.insertIfNew callee []) edges).contains id = true ↔
      edges.contains id = true ∨ id ∈ callees := by
  induction callees generalizing edges with
  | nil => simp
  | cons callee rest inductionHypothesis =>
    have entering : (edges.insertIfNew callee []).contains id = true ↔
        edges.contains id = true ∨ id = callee := by
      unfold Table.contains
      rw [Table.get?_insertIfNew]
      by_cases same : id = callee
      · simp [same]
      · simp [same]
    rw [List.foldl_cons, inductionHypothesis, entering, List.mem_cons, or_assoc]

private theorem mem_nodes_addCalls_iff (graph : CallGraph) (caller : CallableId)
    (callees : List CallableId) (id : CallableId) :
    id ∈ (graph.addCalls caller callees).nodes ↔
      id ∈ graph.nodes ∨ id = caller ∨ id ∈ callees := by
  unfold nodes
  rw [Table.mem_keys_iff_contains, Table.mem_keys_iff_contains]
  unfold addCalls Table.contains
  rw [Table.get?_update]
  by_cases same : id = caller
  · simp [same]
  · rw [if_neg same]
    have added := contains_addNodes callees graph.edges id
    unfold Table.contains at added
    rw [added]
    simp [same]

/-- Calls can be added without leaving a callee outside of the graph. -/
theorem CalleesAreNodes.addCalls (closed : graph.CalleesAreNodes) (caller : CallableId)
    (callees : List CallableId) : (graph.addCalls caller callees).CalleesAreNodes := by
  intro id callee calls
  rw [mem_nodes_addCalls_iff]
  rcases (graph.calls_addCalls_iff caller callees).1 calls with earlier | ⟨-, listed⟩
  · exact .inl (closed id callee earlier)
  · exact .inr (.inr listed)

/-- The graph of a list of calls has all callees among its nodes. -/
theorem calleesAreNodes_ofEdges (edges : List (CallableId × List CallableId)) :
    (ofEdges edges).CalleesAreNodes := by
  refine List.foldlRecOn edges _ ?_ ?_
  · intro caller callee calls
    cases calls
  · intro graph closed entry _
    exact closed.addCalls entry.1 entry.2

/-- So has the graph of a table of callables, in which only calls of known callables count. -/
theorem calleesAreNodes_ofCallables (callables : Callables) :
    (ofCallables callables).CalleesAreNodes := by
  intro caller callee calls
  have isNode := mem_nodes_of_calls calls
  rw [mem_nodes_ofCallables_iff, Table.contains_eq_true_iff] at isNode
  obtain ⟨callable, look⟩ := isNode
  rw [mem_nodes_ofCallables_iff]
  exact ((calls_ofCallables_iff look).1 calls).2

/-! ## The walk from all roots -/

namespace Walk

variable {walk last : Walk}

/-- The walk goes on from one state to another while the roots are taken one after the other.
A root that has been entered is passed over, and from any other the walk goes on to its end. -/
inductive Visits (graph : CallGraph) : List CallableId → Walk → Walk → Prop where
  | done {walk : Walk} : Visits graph [] walk walk
  | known {root : CallableId} {roots : List CallableId} {walk last : Walk}
      (entered : (walk.entered.lookup root).isSome = true)
      (rest : Visits graph roots walk last) : Visits graph (root :: roots) walk last
  | walked {root : CallableId} {roots : List CallableId} {walk next last : Walk}
      (unentered : walk.entered.lookup root = none)
      (ends : Ends graph (walk.enter graph root) next)
      (rest : Visits graph roots next last) : Visits graph (root :: roots) walk last

/-- The walk from all roots has one end. -/
theorem Visits.unique {roots : List CallableId} {other : Walk}
    (visits : Visits graph roots walk last) (visitsOther : Visits graph roots walk other) :
    last = other := by
  induction visits with
  | done =>
    cases visitsOther
    rfl
  | known entered _ inductionHypothesis =>
    cases visitsOther with
    | known _ rest => exact inductionHypothesis rest
    | walked unentered =>
      rw [unentered] at entered
      cases entered
  | walked unentered ends _ inductionHypothesis =>
    cases visitsOther with
    | known entered =>
      rw [unentered] at entered
      cases entered
    | walked _ endsOther rest =>
      obtain rfl := ends.unique endsOther
      exact inductionHypothesis rest

/-- The bounded walk from all roots goes on to its end. -/
theorem visits_foldl (roots : List CallableId) (sound : Sound graph walk)
    (idle : walk.frames = []) :
    Visits graph roots walk (roots.foldl (visit graph graph.walkBound) walk) := by
  induction roots generalizing walk with
  | nil => exact .done
  | cons root rest inductionHypothesis =>
    obtain ⟨visitedSound, visitedIdle, -⟩ := visit_spec sound idle root
    have restVisits := inductionHypothesis visitedSound visitedIdle
    rw [List.foldl_cons]
    by_cases known : (walk.entered.lookup root).isSome = true
    · have stays : walk.visit graph graph.walkBound root = walk := if_pos known
      rw [stays] at restVisits ⊢
      exact .known known restVisits
    · have unentered : walk.entered.lookup root = none := Option.not_isSome_iff_eq_none.1 known
      have runs : walk.visit graph graph.walkBound root =
          (walk.enter graph root).run graph graph.walkBound := if_neg known
      rw [runs] at restVisits ⊢
      exact .walked unentered (ends_run (work_enter_root graph idle unentered)) restVisits

/-! ## The nodes that are entered -/

/-- Only nodes of the graph have been entered. -/
def Inside (graph : CallGraph) (walk : Walk) : Prop :=
  ∀ node, (walk.entered.lookup node).isSome = true → node ∈ graph.nodes

private theorem Inside.of_entered_cons {node : CallableId} {index : Nat}
    (inside : walk.Inside graph)
    (isNode : node ∈ graph.nodes) (extended : last.entered = (node, index) :: walk.entered) :
    last.Inside graph := by
  intro other entered
  rw [extended, lookup_cons_eq] at entered
  by_cases same : other = node
  · exact same ▸ isNode
  · rw [if_neg same] at entered
    exact inside other entered

section Closed

variable (closed : graph.CalleesAreNodes)

include closed

/-- A step enters nothing but nodes of the graph. -/
theorem Inside.step (inside : walk.Inside graph) (sound : Sound graph walk) :
    (walk.step graph).Inside graph := by
  rcases entered_step graph walk with
    same | ⟨frame, frames, callee, pending, framed, next, -, extended⟩
  · intro node entered
    rw [same] at entered
    exact inside node entered
  · have layout := sound.layout
    rw [framed] at layout
    obtain ⟨above, below, -, isSection, -, -⟩ := layout
    exact inside.of_entered_cons (closed _ _ (calls_of_pending isSection next)) extended

theorem Ends.inside (ends : Ends graph walk last) (sound : Sound graph walk)
    (inside : walk.Inside graph) : Sound graph last ∧ last.Inside graph := by
  refine ends.preserves (fun walk => Sound graph walk ∧ walk.Inside graph) ?_ ⟨sound, inside⟩
  rintro walk ⟨sound, inside⟩
  exact ⟨sound.step, inside.step closed sound⟩

/-- Walking from nodes of a graph enters nothing but its nodes. -/
theorem Visits.inside {roots : List CallableId} (visits : Visits graph roots walk last)
    (areNodes : ∀ root ∈ roots, root ∈ graph.nodes) (sound : Sound graph walk)
    (idle : walk.frames = []) (inside : walk.Inside graph) : last.Inside graph := by
  induction visits with
  | done => exact inside
  | known _ _ inductionHypothesis =>
    exact inductionHypothesis (List.forall_mem_cons.1 areNodes).2 sound idle inside
  | walked unentered ends _ inductionHypothesis =>
    obtain ⟨rootIsNode, restAreNodes⟩ := List.forall_mem_cons.1 areNodes
    obtain ⟨nextSound, nextInside⟩ := ends.inside closed (sound.enter_root idle unentered)
      (inside.of_entered_cons rootIsNode rfl)
    exact inductionHypothesis restAreNodes nextSound ends.frames_eq nextInside

end Closed

end Walk

/-! ## The listed components -/

private theorem mem_nodes_of_mem_components (closed : graph.CalleesAreNodes) {node : CallableId}
    (listed : node ∈ graph.components.flatten) : node ∈ graph.nodes := by
  have soundEmpty := Walk.sound_empty graph
  have visits := Walk.visits_foldl graph.nodes soundEmpty rfl
  obtain ⟨sound, -, -⟩ := Walk.visitAll_spec graph.nodes soundEmpty rfl
  have emptyInside : ({} : Walk).Inside graph := by simp [Walk.Inside]
  have inside := visits.inside closed (fun _ isNode => isNode) soundEmpty rfl emptyInside
  apply inside
  rw [Option.isSome_iff_exists, sound.placed]
  exact List.mem_append_right _ listed

private theorem count_components (closed : graph.CalleesAreNodes) (node : CallableId) :
    graph.components.flatten.count node = if node ∈ graph.nodes then 1 else 0 := by
  obtain ⟨-, distinct, covers⟩ := graph.components_spec
  have listed : node ∈ graph.components.flatten ↔ node ∈ graph.nodes :=
    ⟨mem_nodes_of_mem_components closed, covers node⟩
  rw [distinct.count, if_congr listed rfl rfl]

private theorem exists_component_iff {left right : CallableId} (isNode : left ∈ graph.nodes) :
    (∃ members ∈ graph.components, left ∈ members ∧ right ∈ members) ↔
      graph.Reaches left right ∧ graph.Reaches right left := by
  constructor
  · rintro ⟨members, listed, leftMember, rightMember⟩
    exact (mem_component_iff listed leftMember).1 rightMember
  · intro connected
    obtain ⟨members, listed, member⟩ :=
      List.mem_flatten.1 (graph.components_spec.2.2 left isNode)
    exact ⟨members, listed, member, (mem_component_iff listed member).2 connected⟩

/-- A node has one place among the components. -/
theorem component_place_unique {first second : Nat} {firstMembers secondMembers : List CallableId}
    {node : CallableId} (firstListed : graph.components[first]? = some firstMembers)
    (secondListed : graph.components[second]? = some secondMembers)
    (inFirst : node ∈ firstMembers) (inSecond : node ∈ secondMembers) : first = second := by
  obtain ⟨-, disjoint⟩ := List.nodup_flatten.1 graph.components_spec.2.1
  obtain ⟨firstLt, rfl⟩ := List.getElem?_eq_some_iff.1 firstListed
  obtain ⟨secondLt, rfl⟩ := List.getElem?_eq_some_iff.1 secondListed
  rw [List.pairwise_iff_getElem] at disjoint
  rcases Nat.lt_trichotomy first second with lower | same | higher
  · exact absurd inSecond (disjoint _ _ firstLt secondLt lower inFirst)
  · exact same
  · exact absurd inFirst (disjoint _ _ secondLt firstLt higher inSecond)

/-- Calls lead to the same component or to an earlier one. -/
theorem component_place_le_of_calls {callerPlace calleePlace : Nat}
    {callers callees : List CallableId} {caller callee : CallableId}
    (callersListed : graph.components[callerPlace]? = some callers)
    (calleesListed : graph.components[calleePlace]? = some callees) (isCaller : caller ∈ callers)
    (isCallee : callee ∈ callees) (calls : graph.Calls caller callee) :
    calleePlace ≤ callerPlace := by
  obtain ⟨placeLt, atPlace⟩ := List.getElem?_eq_some_iff.1 callersListed
  have split : graph.components =
      graph.components.take callerPlace ++ callers :: graph.components.drop (callerPlace + 1) := by
    rw [← atPlace, List.getElem_cons_drop, List.take_append_drop]
  -- What stands before the component of the caller has a smaller place.
  rcases (graph.components_spec.1 _ _ _ split).closed caller isCaller callee calls with
    inside | before
  · exact Nat.le_of_eq (component_place_unique calleesListed callersListed isCallee inside)
  · obtain ⟨members, listed, member⟩ := List.mem_flatten.1 before
    obtain ⟨place, atEarlier⟩ := List.mem_iff_getElem?.1 listed
    rw [List.getElem?_take] at atEarlier
    split at atEarlier
    · rename_i placeLt
      have same := component_place_unique calleesListed atEarlier isCallee member
      omega
    · cases atEarlier

/-- The walk over a graph whose callees are nodes decomposes the graph into its strongly
connected components.

Without any bound on its steps the walk from all nodes comes to one end, and the components that
it has found then are the listed ones. None of them is empty, every node occurs in them once, two
nodes occur in the same one exactly if each reaches the other, and a call from one to another one
goes to an earlier one. -/
theorem components_decompose_graph (graph : CallGraph) (closed : graph.CalleesAreNodes) :
    (∃ last, (∀ other, Walk.Visits graph graph.nodes {} other ↔ other = last) ∧
      last.components = graph.components) ∧
    IsDecomposition graph graph.components := by
  have visits := Walk.visits_foldl graph.nodes (Walk.sound_empty graph) rfl
  refine ⟨⟨_, fun other => ⟨fun visitsOther => visitsOther.unique visits, ?_⟩, rfl⟩, ?_⟩
  · rintro rfl
    exact visits
  exact
    { nonempty := by
        intro members listed
        obtain ⟨earlier, later, split⟩ := List.append_of_mem listed
        exact (graph.components_spec.1 earlier members later split).nonempty
      once := count_components closed
      together := fun left isNode right _ => exists_component_iff isNode
      ordered := by
        intro callerPlace calleePlace callers callees callersListed calleesListed different caller
          isCaller callee isCallee calls
        have notLater :=
          component_place_le_of_calls callersListed calleesListed isCaller isCallee calls
        omega }

namespace SharedTrace

/-- `Main` calls `Even` twice. `Even` and `Odd` call each other. `Main` and `Odd` call `Trace`,
which calls itself. -/
def calls : CallGraph :=
  ofEdges
    [(method "Main", [method "Even", method "Trace", method "Even"]),
      (method "Even", [method "Odd"]), (method "Odd", [method "Even", method "Trace"]),
      (method "Trace", [method "Trace"])]

/-- The walk starts at `Even` and comes to `Trace` through `Odd`, but it lists `Trace` first. -/
theorem trace_is_listed_first :
    calls.CalleesAreNodes ∧
      calls.components = [[method "Trace"], [method "Odd", method "Even"], [method "Main"]] ∧
      (∃ last, (∀ other, Walk.Visits calls calls.nodes {} other ↔ other = last) ∧
        last.components = calls.components) ∧
      IsDecomposition calls calls.components := by
  have closed : calls.CalleesAreNodes := calleesAreNodes_ofEdges _
  exact ⟨closed, by decide +kernel, components_decompose_graph calls closed⟩

end SharedTrace

end CallGraph

end MappingForms
