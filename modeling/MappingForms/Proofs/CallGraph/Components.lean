import MappingForms.Proofs.CallGraph.Walk

/-!
Contract: the walk over a call graph finds its strongly connected components.

Owns: the measure that every step of the walk decreases, the walk to its end without a
bound on its steps, the state in which it ends, and the characterisation of the listed
components.

A frame costs one step to leave and two for each callee that is still to be looked at.
A node that has not been entered costs two steps for each of its calls. Entering a node
moves its calls from the second account to the first and saves one step, also for a
callee that is no node of the graph.
-/

set_option autoImplicit false

namespace MappingForms

namespace CallGraph

/-! ## The steps that are left -/

/-- The number of calls of the callers that have not been entered. -/
def openCalls (entered : List (CallableId × Nat)) :
    List (CallableId × List CallableId) → Nat
  | [] => 0
  | (caller, listed) :: rest =>
    (if (entered.lookup caller).isSome then 0 else listed.length) + openCalls entered rest

private theorem openCalls_le (entered : List (CallableId × Nat))
    (entries : List (CallableId × List CallableId)) :
    openCalls entered entries ≤ (entries.map (·.2)).flatten.length := by
  induction entries with
  | nil => exact Nat.le_refl _
  | cons entry rest inductionHypothesis =>
    rw [openCalls, List.map_cons, List.flatten_cons, List.length_append]
    split <;> omega

private theorem openCalls_cons_le (node : CallableId) (index : Nat)
    (entered : List (CallableId × Nat)) (entries : List (CallableId × List CallableId)) :
    openCalls ((node, index) :: entered) entries ≤ openCalls entered entries := by
  induction entries with
  | nil => exact Nat.le_refl _
  | cons entry rest inductionHypothesis =>
    rw [openCalls, openCalls, lookup_cons_eq]
    by_cases same : entry.1 = node
    · rw [if_pos same, Option.isSome_some, if_pos rfl]
      omega
    · rw [if_neg same]
      omega

/-- Entering a node settles its calls. -/
theorem openCalls_cons_add_le {node : CallableId} (index : Nat)
    {entered : List (CallableId × Nat)} {entries : List (CallableId × List CallableId)}
    {listed : List CallableId} (unentered : entered.lookup node = none)
    (member : (node, listed) ∈ entries) :
    openCalls ((node, index) :: entered) entries + listed.length ≤ openCalls entered entries := by
  induction entries with
  | nil => cases member
  | cons entry rest inductionHypothesis =>
    rcases List.mem_cons.1 member with rfl | later
    · have restLe := openCalls_cons_le node index entered rest
      rw [openCalls, openCalls, lookup_cons_eq, if_pos rfl, unentered, Option.isSome_some,
        if_pos rfl, Option.isSome_none, if_neg Bool.false_ne_true]
      omega
    · have restLe := inductionHypothesis later
      rw [openCalls, openCalls, lookup_cons_eq]
      by_cases same : entry.1 = node
      · rw [if_pos same, Option.isSome_some, if_pos rfl]
        omega
      · rw [if_neg same]
        omega

private theorem openCalls_enter (graph : CallGraph) {node : CallableId} (index : Nat)
    {entered : List (CallableId × Nat)} (unentered : entered.lookup node = none) :
    openCalls ((node, index) :: entered) graph.edges.entries + (graph.callees node).length ≤
      openCalls entered graph.edges.entries := by
  unfold callees
  cases found : graph.edges.get? node with
  | none => exact openCalls_cons_le ..
  | some listed =>
    exact openCalls_cons_add_le index unentered ((graph.edges.get?_eq_some_iff _ _).1 found)

def framesWork : List Frame → Nat
  | [] => 0
  | frame :: frames => 1 + 2 * frame.pending.length + framesWork frames

namespace Walk

def work (graph : CallGraph) (walk : Walk) : Nat :=
  framesWork walk.frames + 2 * openCalls walk.entered graph.edges.entries

variable {graph : CallGraph} {walk : Walk}

private theorem framesWork_leave (walk : Walk) (frame : Frame) (frames : List Frame) :
    framesWork (walk.leave frame frames).frames = framesWork frames := by
  unfold leave
  by_cases closes : frame.low = frame.index
  · rw [if_pos closes]
    cases frames <;> rfl
  · rw [if_neg closes]
    cases frames <;> rfl

private theorem entered_leave (walk : Walk) (frame : Frame) (frames : List Frame) :
    (walk.leave frame frames).entered = walk.entered := by
  unfold leave
  by_cases closes : frame.low = frame.index
  · rw [if_pos closes]
  · rw [if_neg closes]

private theorem work_enter (graph : CallGraph) (walk : Walk) {node : CallableId}
    (unentered : walk.entered.lookup node = none) :
    (walk.enter graph node).work graph ≤ 1 + walk.work graph := by
  have settled := openCalls_enter graph walk.entered.length unentered
  simp only [work, enter, framesWork]
  omega

/-- Every step of a walk with frames decreases the bound. -/
theorem work_step (graph : CallGraph) (active : walk.frames ≠ []) :
    (walk.step graph).work graph < walk.work graph := by
  unfold step
  cases framed : walk.frames with
  | nil => exact absurd framed active
  | cons frame frames =>
    have workEq : walk.work graph = 1 + 2 * frame.pending.length + framesWork frames +
        2 * openCalls walk.entered graph.edges.entries := by
      rw [work, framed, framesWork]
    cases next : frame.pending with
    | nil =>
      simp only [next]
      rw [work, framesWork_leave, entered_leave, workEq]
      omega
    | cons callee pending =>
      rw [next, List.length_cons] at workEq
      simp only [next]
      cases look : walk.entered.lookup callee with
      | none =>
        have entering :=
          work_enter graph { walk with frames := { frame with pending } :: frames } look
        simp only [work, framesWork] at entering workEq ⊢
        omega
      | some index =>
        simp only [work, framesWork] at workEq ⊢
        omega

/-- The walk goes on from one state to another, step by step, until no frame is left. -/
inductive Ends (graph : CallGraph) : Walk → Walk → Prop where
  | idle {walk : Walk} (idle : walk.frames = []) : Ends graph walk walk
  | step {walk last : Walk} (active : walk.frames ≠ [])
      (rest : Ends graph (walk.step graph) last) : Ends graph walk last

theorem Ends.frames_eq {last : Walk} (ends : Ends graph walk last) : last.frames = [] := by
  induction ends with
  | idle idle => exact idle
  | step _ _ inductionHypothesis => exact inductionHypothesis

/-- The walk has one end. -/
theorem Ends.unique {last other : Walk} (ends : Ends graph walk last)
    (endsOther : Ends graph walk other) : last = other := by
  induction ends with
  | idle idle =>
    cases endsOther with
    | idle => rfl
    | step active => exact absurd idle active
  | step active _ inductionHypothesis =>
    cases endsOther with
    | idle idle => exact absurd idle active
    | step _ rest => exact inductionHypothesis rest

/-- What every step preserves, the walk preserves to its end. -/
theorem Ends.preserves {last : Walk} (ends : Ends graph walk last) (holds : Walk → Prop)
    (preserved : ∀ walk, holds walk → holds (walk.step graph)) (starts : holds walk) :
    holds last := by
  induction ends with
  | idle => exact starts
  | step _ _ inductionHypothesis => exact inductionHypothesis (preserved _ starts)

/-- A run with enough steps goes on to the end of the walk. -/
theorem ends_run {bound : Nat} (enough : walk.work graph ≤ bound) :
    Ends graph walk (walk.run graph bound) := by
  induction bound generalizing walk with
  | zero =>
    cases framed : walk.frames with
    | nil => exact .idle framed
    | cons frame frames =>
      rw [work, framed, framesWork] at enough
      omega
  | succ bound inductionHypothesis =>
    rw [run]
    by_cases idle : walk.frames.isEmpty = true
    · rw [if_pos idle]
      exact .idle (List.isEmpty_iff.1 idle)
    · rw [if_neg idle]
      have active : walk.frames ≠ [] := fun none => idle (List.isEmpty_iff.2 none)
      have decreases := work_step graph active
      exact .step active (inductionHypothesis (by omega))

/-- The bound on the steps of a walk is enough from every root. -/
theorem work_enter_root (graph : CallGraph) {root : CallableId} (idle : walk.frames = [])
    (unentered : walk.entered.lookup root = none) :
    (walk.enter graph root).work graph ≤ graph.walkBound := by
  have entering := work_enter graph walk unentered
  have openLe := openCalls_le walk.entered graph.edges.entries
  have idleWork : walk.work graph = 2 * openCalls walk.entered graph.edges.entries := by
    rw [work, idle, framesWork, Nat.zero_add]
  unfold walkBound edgeCount Table.values
  omega

/-! ## The walk as a whole -/

/-- A step enters no node, or the next callee of the innermost frame. -/
theorem entered_step (graph : CallGraph) (walk : Walk) :
    (walk.step graph).entered = walk.entered ∨
      ∃ frame frames callee pending, walk.frames = frame :: frames ∧
        frame.pending = callee :: pending ∧ walk.entered.lookup callee = none ∧
        (walk.step graph).entered = (callee, walk.entered.length) :: walk.entered := by
  unfold step
  cases walk.frames with
  | nil => exact .inl rfl
  | cons frame frames =>
    cases next : frame.pending with
    | nil =>
      simp only [next]
      exact .inl (entered_leave walk frame frames)
    | cons callee pending =>
      simp only [next]
      cases look : walk.entered.lookup callee with
      | none => exact .inr ⟨frame, frames, callee, pending, rfl, next, look, rfl⟩
      | some index => exact .inl rfl

/-- A node that has been entered stays so. -/
theorem isSome_lookup_step {node : CallableId}
    (entered : (walk.entered.lookup node).isSome = true) :
    ((walk.step graph).entered.lookup node).isSome = true := by
  rcases entered_step graph walk with same | ⟨_, _, callee, _, -, -, unentered, extended⟩
  · rw [same]
    exact entered
  · obtain ⟨index, found⟩ := Option.isSome_iff_exists.1 entered
    rw [extended]
    exact Option.isSome_iff_exists.2 ⟨index, lookup_cons_of_some unentered found⟩

/-- After a visit the walk is sound and idle, and the root has been entered, as has every
node that was entered before. -/
theorem visit_spec (sound : Sound graph walk) (idle : walk.frames = []) (root : CallableId) :
    Sound graph (walk.visit graph graph.walkBound root) ∧
      (walk.visit graph graph.walkBound root).frames = [] ∧
      ∀ node, node = root ∨ (walk.entered.lookup node).isSome = true →
        ((walk.visit graph graph.walkBound root).entered.lookup node).isSome = true := by
  unfold visit
  by_cases known : (walk.entered.lookup root).isSome = true
  · rw [if_pos known]
    refine ⟨sound, idle, ?_⟩
    rintro node (rfl | entered)
    · exact known
    · exact entered
  · rw [if_neg known]
    have unentered : walk.entered.lookup root = none := by
      rw [← Option.not_isSome_iff_eq_none]
      exact known
    have ends := ends_run (work_enter_root graph idle unentered)
    refine ⟨ends.preserves (Sound graph) (fun _ sound => sound.step)
      (sound.enter_root idle unentered), ends.frames_eq, ?_⟩
    intro node entered
    refine ends.preserves (fun walk => (walk.entered.lookup node).isSome = true)
      (fun _ entered => isSome_lookup_step entered) ?_
    show (((root, walk.entered.length) :: walk.entered).lookup node).isSome = true
    rw [lookup_cons_eq]
    by_cases same : node = root
    · rw [if_pos same, Option.isSome_some]
    · rw [if_neg same]
      exact entered.resolve_left same

/-- Walking from one root after the other keeps the walk sound and enters every root. -/
theorem visitAll_spec (roots : List CallableId) (sound : Sound graph walk)
    (idle : walk.frames = []) :
    Sound graph (roots.foldl (visit graph graph.walkBound) walk) ∧
      (roots.foldl (visit graph graph.walkBound) walk).frames = [] ∧
      ∀ node, node ∈ roots ∨ (walk.entered.lookup node).isSome = true →
        ((roots.foldl (visit graph graph.walkBound) walk).entered.lookup node).isSome = true := by
  induction roots generalizing walk with
  | nil =>
    refine ⟨sound, idle, ?_⟩
    rintro node (member | entered)
    · cases member
    · exact entered
  | cons root rest inductionHypothesis =>
    obtain ⟨visitedSound, visitedIdle, visitedEntered⟩ := visit_spec sound idle root
    obtain ⟨restSound, restIdle, restEntered⟩ := inductionHypothesis visitedSound visitedIdle
    refine ⟨restSound, restIdle, ?_⟩
    intro node known
    apply restEntered
    rcases known with member | entered
    · rcases List.mem_cons.1 member with same | later
      · exact .inr (visitedEntered node (.inl same))
      · exact .inl later
    · exact .inr (visitedEntered node (.inr entered))

end Walk

/-! ## The listed components -/

/-- The components are found one after the other, are disjoint and cover all nodes. -/
theorem components_spec (graph : CallGraph) :
    Finished graph graph.components ∧ graph.components.flatten.Nodup ∧
      ∀ node ∈ graph.nodes, node ∈ graph.components.flatten := by
  obtain ⟨sound, idle, entered⟩ :=
    Walk.visitAll_spec graph.nodes (Walk.sound_empty graph) rfl
  -- Without frames nothing is left on the stack.
  have stackEq : (graph.nodes.foldl (Walk.visit graph graph.walkBound) {}).stack = [] := by
    have layout := sound.layout
    rw [idle] at layout
    exact layout
  refine ⟨sound.finished, ?_, ?_⟩
  · have distinct := sound.distinct
    rw [stackEq, List.nil_append] at distinct
    exact distinct
  · intro node member
    have known := Option.isSome_iff_exists.1 (entered node (.inl member))
    have placed := (sound.placed node).1 known
    rw [stackEq, List.nil_append] at placed
    exact placed

variable {graph : CallGraph}

/-- Calls never lead out of the components up to a given one. -/
theorem Finished.calls_mem {components earlier later : List (List CallableId)}
    {members : List CallableId} (finished : Finished graph components)
    (split : components = earlier ++ members :: later) {node callee : CallableId}
    (member : node ∈ earlier.flatten) (calls : graph.Calls node callee) :
    callee ∈ earlier.flatten := by
  obtain ⟨component, listed, inComponent⟩ := List.mem_flatten.1 member
  obtain ⟨first, second, rfl⟩ := List.append_of_mem listed
  rw [List.append_assoc, List.cons_append] at split
  rw [List.flatten_append, List.flatten_cons, List.mem_append, List.mem_append]
  rcases (finished first component _ split).closed node inComponent callee calls with
    within | before
  · exact .inr (.inl within)
  · exact .inl before

/-- The members of a component are the nodes that one of them reaches and is reached from. -/
theorem Finished.mem_iff {components : List (List CallableId)} {members : List CallableId}
    {node other : CallableId} (finished : Finished graph components)
    (distinct : components.flatten.Nodup) (listed : members ∈ components)
    (member : node ∈ members) :
    other ∈ members ↔ graph.Reaches node other ∧ graph.Reaches other node := by
  obtain ⟨earlier, later, split⟩ := List.append_of_mem listed
  have isComponent := finished earlier members later split
  constructor
  · intro otherMember
    exact ⟨isComponent.connected node member other otherMember,
      isComponent.connected other otherMember node member⟩
  · intro ⟨reaches, reachesBack⟩
    have placed : other ∈ members ∨ other ∈ earlier.flatten := by
      refine reaches.mem_of_closed (fun id => id ∈ members ∨ id ∈ earlier.flatten) ?_
        (.inl member)
      intro id within next calls
      rcases within with inside | before
      · exact isComponent.closed id inside next calls
      · exact .inr (finished.calls_mem split before calls)
    rcases placed with inside | before
    · exact inside
    · -- From an earlier component there is no way back.
      have nodeBefore : node ∈ earlier.flatten :=
        reachesBack.mem_of_closed (· ∈ earlier.flatten)
          (fun _ within _ calls => finished.calls_mem split within calls) before
      rw [split, List.flatten_append, List.flatten_cons] at distinct
      exact absurd (List.mem_append_left _ member)
        (List.disjoint_of_nodup_append distinct nodeBefore)

end CallGraph

end MappingForms
