import MappingForms.CallGraph.Components
import MappingForms.Proofs.CallGraph.Reachability

/-!
Contract: what the depth-first walk over a call graph knows at every step.

Owns: the invariant of the walk and its preservation by entering a node, by looking at
a callee and by leaving a node.

The stack consists of one section for each frame: the node of the frame, and above it
the nodes that were left since and belong to no finished component. The nodes of a
section are mutually reachable. Everything they call has been entered, and what of it
is on the stack has an index no lower than the `low` of the frame. A frame with
`low = index` therefore calls nothing below its section, and the section is a
component. A frame with a lower `low` reaches down into the section of its parent or
further, and its section becomes a part of the parent's.
-/

set_option autoImplicit false

namespace MappingForms

namespace CallGraph

/-! ## Indices -/

/-- Every node is entered once, and its index is the number of nodes before it. -/
def Numbered : List (CallableId × Nat) → Prop
  | [] => True
  | (node, index) :: earlier =>
    index = earlier.length ∧ earlier.lookup node = none ∧ Numbered earlier

theorem lookup_cons_eq (node : CallableId) (index : Nat) (earlier : List (CallableId × Nat))
    (sought : CallableId) :
    ((node, index) :: earlier).lookup sought =
      if sought = node then some index else earlier.lookup sought := by
  by_cases same : sought = node
  · simp [same]
  · have different : (sought == node) = false := beq_eq_false_iff_ne.2 same
    simp [List.lookup_cons, same, different]

/-- Entering another node keeps the indices. -/
theorem lookup_cons_of_some {node sought : CallableId} {index found : Nat}
    {earlier : List (CallableId × Nat)} (unentered : earlier.lookup node = none)
    (look : earlier.lookup sought = some found) :
    ((node, index) :: earlier).lookup sought = some found := by
  have different : sought ≠ node := by
    intro same
    rw [same, unentered] at look
    cases look
  rw [lookup_cons_eq, if_neg different, look]

private theorem Numbered.lookup_lt {entered : List (CallableId × Nat)} {node : CallableId}
    {index : Nat} (numbered : Numbered entered) (look : entered.lookup node = some index) :
    index < entered.length := by
  induction entered with
  | nil => cases look
  | cons entry earlier inductionHypothesis =>
    obtain ⟨first, firstIndex⟩ := entry
    obtain ⟨rfl, -, numberedEarlier⟩ := numbered
    rw [lookup_cons_eq] at look
    by_cases same : node = first
    · rw [if_pos same, Option.some.injEq] at look
      rw [← look, List.length_cons]
      exact Nat.lt_succ_self _
    · rw [if_neg same] at look
      exact Nat.lt_succ_of_lt (inductionHypothesis numberedEarlier look)

private theorem ne_of_lookup_eq_none {entered : List (CallableId × Nat)} {node other : CallableId}
    (unentered : entered.lookup node = none) (member : other ∈ entered.map (·.1)) :
    other ≠ node := by
  obtain ⟨entry, listed, rfl⟩ := List.mem_map.1 member
  intro same
  have different := List.lookup_eq_none_iff.1 unentered entry listed
  rw [same] at different
  simp at different

/-- Nodes are listed by decreasing index. -/
theorem Numbered.descending {entered : List (CallableId × Nat)} (numbered : Numbered entered) :
    (entered.map (·.1)).Pairwise fun upper lower =>
      ∀ upperIndex lowerIndex, entered.lookup upper = some upperIndex →
        entered.lookup lower = some lowerIndex → lowerIndex < upperIndex := by
  induction entered with
  | nil => exact List.Pairwise.nil
  | cons entry earlier inductionHypothesis =>
    obtain ⟨node, index⟩ := entry
    obtain ⟨rfl, unentered, numberedEarlier⟩ := numbered
    rw [List.map_cons, List.pairwise_cons]
    constructor
    · intro lower member upperIndex lowerIndex lookUpper lookLower
      rw [lookup_cons_eq, if_pos rfl, Option.some.injEq] at lookUpper
      rw [lookup_cons_eq, if_neg (ne_of_lookup_eq_none unentered member)] at lookLower
      have below := numberedEarlier.lookup_lt lookLower
      omega
    · refine (inductionHypothesis numberedEarlier).imp_of_mem ?_
      intro upper lower upperMember lowerMember below upperIndex lowerIndex lookUpper lookLower
      rw [lookup_cons_eq, if_neg (ne_of_lookup_eq_none unentered upperMember)] at lookUpper
      rw [lookup_cons_eq, if_neg (ne_of_lookup_eq_none unentered lowerMember)] at lookLower
      exact below upperIndex lowerIndex lookUpper lookLower

/-! ## Finished components -/

/-- The members of a component reach one another, and call nothing but one another and
members of earlier components. -/
structure IsComponent (graph : CallGraph) (earlier : List (List CallableId))
    (members : List CallableId) : Prop where
  nonempty : members ≠ []
  connected : ∀ left ∈ members, ∀ right ∈ members, graph.Reaches left right
  closed : ∀ node ∈ members, ∀ callee, graph.Calls node callee →
    callee ∈ members ∨ callee ∈ earlier.flatten

/-- Every list is a component, given the lists before it. -/
def Finished (graph : CallGraph) (components : List (List CallableId)) : Prop :=
  ∀ earlier members later, components = earlier ++ members :: later →
    IsComponent graph earlier members

/-- Another component may follow those that are finished. -/
theorem Finished.concat {graph : CallGraph} {components : List (List CallableId)}
    {members : List CallableId} (finished : Finished graph components)
    (isComponent : IsComponent graph components members) :
    Finished graph (components ++ [members]) := by
  intro earlier found later split
  rcases List.eq_nil_or_concat later with rfl | ⟨before, last, rfl⟩
  · obtain ⟨rfl, same⟩ := List.append_inj' split rfl
    rw [List.cons.injEq] at same
    rw [← same.1]
    exact isComponent
  · rw [List.concat_eq_append, ← List.cons_append, ← List.append_assoc] at split
    obtain ⟨split, -⟩ := List.append_inj' split rfl
    exact finished earlier found before split

/-! ## Sections of the stack -/

/-- A callee has been entered, and is no lower on the stack than the given index. -/
def Seen (entered : List (CallableId × Nat)) (stack : List CallableId) (low : Nat)
    (callee : CallableId) : Prop :=
  ∃ index, entered.lookup callee = some index ∧ (callee ∈ stack → low ≤ index)

/-- Later in the walk, nodes keep their indices, and no node that was entered comes back to
the stack. -/
structure Continues (entered : List (CallableId × Nat)) (stack : List CallableId)
    (laterEntered : List (CallableId × Nat)) (laterStack : List CallableId) : Prop where
  kept : ∀ node index, entered.lookup node = some index → laterEntered.lookup node = some index
  onStack : ∀ node index, entered.lookup node = some index → node ∈ laterStack → node ∈ stack

/-- What the walk knows about a frame, whose node has the given nodes above and below it on
the stack. -/
structure IsSection (graph : CallGraph) (entered : List (CallableId × Nat))
    (stack : List CallableId) (frame : Frame) (above below : List CallableId) : Prop where
  index_eq : entered.lookup frame.node = some frame.index
  low_le : frame.low ≤ frame.index
  /-- The index `low` belongs to a node that the frame reaches. -/
  target : ∃ node ∈ frame.node :: below, entered.lookup node = some frame.low ∧
    graph.Reaches frame.node node
  looked : ∃ done, graph.callees frame.node = done ++ frame.pending ∧
    ∀ callee ∈ done, Seen entered stack frame.low callee
  connected : ∀ node ∈ above, graph.Reaches frame.node node ∧ graph.Reaches node frame.node
  left : ∀ node ∈ above, ∀ callee, graph.Calls node callee →
    Seen entered stack frame.low callee

/-- The frames divide a part of the stack into sections, and the node of each frame is called
by the node of the next one. -/
def Layout (graph : CallGraph) (entered : List (CallableId × Nat)) (stack : List CallableId) :
    List Frame → List CallableId → Prop
  | [], part => part = []
  | frame :: frames, part =>
    ∃ above below, part = above ++ frame.node :: below ∧
      IsSection graph entered stack frame above below ∧
      (∀ parent ∈ frames.head?, graph.Calls parent.node frame.node) ∧
      Layout graph entered stack frames below

section

variable {graph : CallGraph} {entered laterEntered : List (CallableId × Nat)}
  {stack laterStack : List CallableId}

theorem Seen.lower {low lower : Nat} {callee : CallableId} (seen : Seen entered stack low callee)
    (le : lower ≤ low) : Seen entered stack lower callee := by
  obtain ⟨index, look, bound⟩ := seen
  exact ⟨index, look, fun onStack => Nat.le_trans le (bound onStack)⟩

/-- A callee that has been seen stays seen later in the walk. -/
theorem Seen.later {low : Nat} {callee : CallableId} (seen : Seen entered stack low callee)
    (continues : Continues entered stack laterEntered laterStack) :
    Seen laterEntered laterStack low callee := by
  obtain ⟨index, look, bound⟩ := seen
  exact ⟨index, continues.kept callee index look,
    fun onStack => bound (continues.onStack callee index look onStack)⟩

/-- What the walk knows about a frame stays true later on. -/
theorem IsSection.later {frame : Frame} {above below : List CallableId}
    (isSection : IsSection graph entered stack frame above below)
    (continues : Continues entered stack laterEntered laterStack) :
    IsSection graph laterEntered laterStack frame above below where
  index_eq := continues.kept _ _ isSection.index_eq
  low_le := isSection.low_le
  target := by
    obtain ⟨node, member, look, reaches⟩ := isSection.target
    exact ⟨node, member, continues.kept _ _ look, reaches⟩
  looked := by
    obtain ⟨done, split, seen⟩ := isSection.looked
    exact ⟨done, split, fun callee member => (seen callee member).later continues⟩
  connected := isSection.connected
  left node member callee calls := (isSection.left node member callee calls).later continues

/-- A callee that was seen needs no further look. -/
theorem IsSection.advance {frame : Frame} {above below pending : List CallableId}
    {callee : CallableId} (isSection : IsSection graph entered stack frame above below)
    (next : frame.pending = callee :: pending) (calleeSeen : Seen entered stack frame.low callee) :
    IsSection graph entered stack { frame with pending } above below := by
  refine { isSection with looked := ?_ }
  obtain ⟨done, calleesEq, seen⟩ := isSection.looked
  refine ⟨done ++ [callee], ?_, ?_⟩
  · rw [calleesEq, next, List.append_assoc]
    rfl
  · intro other member
    rcases List.mem_append.1 member with earlier | last
    · exact seen other earlier
    · rw [List.mem_singleton.1 last]
      exact calleeSeen

/-- A frame takes over a lower index that it reaches. -/
theorem IsSection.lower {frame : Frame} {above below : List CallableId} {low : Nat}
    {target : CallableId} (isSection : IsSection graph entered stack frame above below)
    (le : low ≤ frame.low) (member : target ∈ frame.node :: below)
    (look : entered.lookup target = some low) (reaches : graph.Reaches frame.node target) :
    IsSection graph entered stack { frame with low } above below where
  index_eq := isSection.index_eq
  low_le := Nat.le_trans le isSection.low_le
  target := ⟨target, member, look, reaches⟩
  looked := by
    obtain ⟨done, calleesEq, seen⟩ := isSection.looked
    exact ⟨done, calleesEq, fun callee listed => (seen callee listed).lower le⟩
  connected := isSection.connected
  left node listed callee calls := (isSection.left node listed callee calls).lower le

/-- A section takes over nodes that are connected with it and have been left. -/
theorem IsSection.absorb {frame : Frame} {above below : List CallableId}
    (isSection : IsSection graph entered stack frame above below) (moved : List CallableId)
    (connected : ∀ node ∈ moved, graph.Reaches frame.node node ∧ graph.Reaches node frame.node)
    (left : ∀ node ∈ moved, ∀ callee, graph.Calls node callee →
      Seen entered stack frame.low callee) :
    IsSection graph entered stack frame (moved ++ above) below where
  index_eq := isSection.index_eq
  low_le := isSection.low_le
  target := isSection.target
  looked := isSection.looked
  connected node member :=
    (List.mem_append.1 member).elim (connected node) (isSection.connected node)
  left node member :=
    (List.mem_append.1 member).elim (left node) (isSection.left node)

private theorem IsSection.connected_of_mem {frame : Frame} {above below : List CallableId}
    {node : CallableId} (isSection : IsSection graph entered stack frame above below)
    (member : node ∈ above ++ [frame.node]) :
    graph.Reaches frame.node node ∧ graph.Reaches node frame.node := by
  rcases List.mem_append.1 member with inAbove | atNode
  · exact isSection.connected node inAbove
  · rw [List.mem_singleton.1 atNode]
    exact ⟨.refl, .refl⟩

/-- Once no callee is left to look at, everything that the section calls has been seen. -/
theorem IsSection.seen_of_calls {frame : Frame} {above below : List CallableId}
    {node callee : CallableId} (isSection : IsSection graph entered stack frame above below)
    (complete : frame.pending = []) (member : node ∈ above ++ [frame.node])
    (calls : graph.Calls node callee) : Seen entered stack frame.low callee := by
  rcases List.mem_append.1 member with inAbove | atNode
  · exact isSection.left node inAbove callee calls
  · obtain ⟨done, calleesEq, seen⟩ := isSection.looked
    rw [complete, List.append_nil] at calleesEq
    rw [List.mem_singleton.1 atNode, Calls, calleesEq] at calls
    exact seen callee calls

/-- Frames keep their sections of the stack later in the walk. -/
theorem Layout.later {frames : List Frame} {part : List CallableId}
    (layout : Layout graph entered stack frames part)
    (continues : Continues entered stack laterEntered laterStack) :
    Layout graph laterEntered laterStack frames part := by
  induction frames generalizing part with
  | nil => exact layout
  | cons frame frames inductionHypothesis =>
    obtain ⟨above, below, split, isSection, called, layoutBelow⟩ := layout
    exact ⟨above, below, split, isSection.later continues, called,
      inductionHypothesis layoutBelow⟩

/-- Every node on the stack reaches the innermost frame. -/
theorem Layout.reaches_node {frame : Frame} {frames : List Frame} {part : List CallableId}
    (layout : Layout graph entered stack (frame :: frames) part) :
    ∀ node ∈ part, graph.Reaches node frame.node := by
  induction frames generalizing frame part with
  | nil =>
    obtain ⟨above, below, rfl, isSection, -, rfl⟩ := layout
    intro node member
    rcases List.mem_append.1 member with inAbove | atNode
    · exact (isSection.connected node inAbove).2
    · rw [List.mem_singleton.1 atNode]
  | cons parent frames inductionHypothesis =>
    obtain ⟨above, below, rfl, isSection, called, layoutBelow⟩ := layout
    intro node member
    rcases List.mem_append.1 member with inAbove | atNode
    · exact (isSection.connected node inAbove).2
    · rcases List.mem_cons.1 atNode with same | inBelow
      · rw [same]
      · exact (inductionHypothesis layoutBelow node inBelow).tail (called parent rfl)

end

/-! ## The invariant -/

/-- What holds at every step of the walk. -/
structure Walk.Sound (graph : CallGraph) (walk : Walk) : Prop where
  numbered : Numbered walk.entered
  /-- The nodes entered are those on the stack and those in finished components. -/
  placed : ∀ node, (∃ index, walk.entered.lookup node = some index) ↔
    node ∈ walk.stack ++ walk.components.flatten
  distinct : (walk.stack ++ walk.components.flatten).Nodup
  ordered : walk.stack.Sublist (walk.entered.map (·.1))
  layout : Layout graph walk.entered walk.stack walk.frames walk.stack
  finished : Finished graph walk.components

namespace Walk

variable {graph : CallGraph} {walk : Walk}

/-- The walk is sound before it has entered anything. -/
theorem sound_empty (graph : CallGraph) : Sound graph {} where
  numbered := trivial
  placed node := by simp
  distinct := List.nodup_nil
  ordered := List.Sublist.refl _
  layout := rfl
  finished earlier members later split := by simp at split

section Indices

variable {above below : List CallableId} {node other : CallableId} {index otherIndex : Nat}

private theorem Sound.lt_of_mem_above (sound : Sound graph walk)
    (split : walk.stack = above ++ node :: below)
    (look : walk.entered.lookup node = some index)
    (lookOther : walk.entered.lookup other = some otherIndex) (inAbove : other ∈ above) :
    index < otherIndex := by
  have descending := sound.numbered.descending.sublist sound.ordered
  rw [split] at descending
  exact (List.pairwise_append.1 descending).2.2 other inAbove node List.mem_cons_self
    otherIndex index lookOther look

private theorem Sound.lt_of_mem_below (sound : Sound graph walk)
    (split : walk.stack = above ++ node :: below)
    (look : walk.entered.lookup node = some index)
    (lookOther : walk.entered.lookup other = some otherIndex) (inBelow : other ∈ below) :
    otherIndex < index := by
  have descending := sound.numbered.descending.sublist sound.ordered
  rw [split] at descending
  exact (List.pairwise_cons.1 (List.pairwise_append.1 descending).2.1).1 other inBelow
    index otherIndex look lookOther

end Indices

/-- A frame whose node reaches a node on the stack takes over its index if it is lower. -/
theorem Sound.lower (sound : Sound graph walk) {frame : Frame}
    {above below members : List CallableId} {other : CallableId} {index : Nat}
    (split : walk.stack = above ++ frame.node :: below)
    (isSection : IsSection graph walk.entered walk.stack frame members below)
    (look : walk.entered.lookup other = some index) (onStack : other ∈ walk.stack)
    (reaches : graph.Reaches frame.node other) :
    IsSection graph walk.entered walk.stack { frame with low := min frame.low index }
      members below := by
  by_cases lower : index ≤ frame.low
  · rw [Nat.min_eq_right lower]
    -- Nodes above the section's own node have higher indices.
    have member : other ∈ frame.node :: below := by
      rw [split] at onStack
      rcases List.mem_append.1 onStack with inAbove | atNode
      · have higher := sound.lt_of_mem_above split isSection.index_eq look inAbove
        have lowLe := isSection.low_le
        omega
      · exact atNode
    exact isSection.lower lower member look reaches
  · rw [Nat.min_eq_left (by omega)]
    exact isSection

/-! ## Entering a node -/

/-- Entering a node that has no index continues the walk. -/
theorem continues_enter {node : CallableId} (unentered : walk.entered.lookup node = none) :
    Continues walk.entered walk.stack ((node, walk.entered.length) :: walk.entered)
      (node :: walk.stack) where
  kept _ _ look := lookup_cons_of_some unentered look
  onStack other index look onStack := by
    rcases List.mem_cons.1 onStack with same | earlier
    · rw [same, unentered] at look
      cases look
    · exact earlier

/-- The walk stays sound when a node is entered that has no index, provided that the frames
are laid out below it. -/
theorem Sound.enter (sound : Sound graph walk) {node : CallableId} {frames : List Frame}
    (unentered : walk.entered.lookup node = none)
    (called : ∀ parent ∈ frames.head?, graph.Calls parent.node node)
    (layout : Layout graph ((node, walk.entered.length) :: walk.entered) (node :: walk.stack)
      frames walk.stack) :
    Sound graph ({ walk with frames := frames }.enter graph node) where
  numbered := ⟨rfl, unentered, sound.numbered⟩
  placed other := by
    show (∃ index, ((node, walk.entered.length) :: walk.entered).lookup other = some index) ↔
      other ∈ node :: (walk.stack ++ walk.components.flatten)
    rw [lookup_cons_eq, List.mem_cons, ← sound.placed other]
    by_cases same : other = node
    · simp [same]
    · simp [same]
  distinct := by
    refine List.nodup_cons.2 ⟨?_, sound.distinct⟩
    intro member
    obtain ⟨index, look⟩ := (sound.placed node).2 member
    rw [unentered] at look
    cases look
  ordered := sound.ordered.cons_cons node
  layout := by
    have entered : ((node, walk.entered.length) :: walk.entered).lookup node =
        some walk.entered.length := by
      rw [lookup_cons_eq, if_pos rfl]
    refine ⟨[], walk.stack, rfl, ?_, called, layout⟩
    exact
      { index_eq := entered
        low_le := Nat.le_refl _
        target := ⟨node, List.mem_cons_self, entered, .refl⟩
        looked := ⟨[], rfl, fun _ member => nomatch member⟩
        connected := fun _ member => nomatch member
        left := fun _ member => nomatch member }
  finished := sound.finished

/-- The walk stays sound when it starts at a node that has no index. -/
theorem Sound.enter_root (sound : Sound graph walk) {node : CallableId}
    (idle : walk.frames = []) (unentered : walk.entered.lookup node = none) :
    Sound graph (walk.enter graph node) := by
  have layout : Layout graph ((node, walk.entered.length) :: walk.entered) (node :: walk.stack)
      [] walk.stack := by
    rw [← idle]
    exact sound.layout.later (continues_enter unentered)
  have noParent : ∀ parent ∈ ([] : List Frame).head?, graph.Calls parent.node node := by
    intro parent member
    cases member
  have entered := sound.enter unentered noParent layout
  rw [← idle] at entered
  exact entered

/-! ## Looking at a callee -/

variable {frame : Frame} {frames : List Frame} {callee : CallableId}
  {pending : List CallableId}

/-- What a frame has yet to look at is called by its node. -/
theorem calls_of_pending {above below : List CallableId} {entered : List (CallableId × Nat)}
    {stack : List CallableId} (isSection : IsSection graph entered stack frame above below)
    (next : frame.pending = callee :: pending) : graph.Calls frame.node callee := by
  obtain ⟨done, calleesEq, -⟩ := isSection.looked
  rw [Calls, calleesEq, next]
  exact List.mem_append_right _ List.mem_cons_self

/-- The walk stays sound when it enters a callee that has no index. -/
theorem Sound.enter_callee (sound : Sound graph walk) (framed : walk.frames = frame :: frames)
    (next : frame.pending = callee :: pending)
    (unentered : walk.entered.lookup callee = none) :
    Sound graph ({ walk with frames := { frame with pending } :: frames }.enter graph callee) := by
  have layout := sound.layout
  rw [framed] at layout
  obtain ⟨above, below, split, isSection, called, layoutBelow⟩ := layout
  have continues := continues_enter unentered
  have calls := calls_of_pending isSection next
  -- The callee has the highest index of all.
  have calleeSeen : Seen ((callee, walk.entered.length) :: walk.entered) (callee :: walk.stack)
      frame.low callee := by
    have indexLt := sound.numbered.lookup_lt isSection.index_eq
    have lowLe := isSection.low_le
    exact ⟨walk.entered.length, by rw [lookup_cons_eq, if_pos rfl], fun _ => by omega⟩
  refine sound.enter unentered ?_
    ⟨above, below, split, (isSection.later continues).advance next calleeSeen, called,
      layoutBelow.later continues⟩
  intro parent member
  obtain rfl := Option.some.inj member
  exact calls

/-- The walk stays sound when it looks at a callee that has an index. -/
theorem Sound.look (sound : Sound graph walk) (framed : walk.frames = frame :: frames)
    (next : frame.pending = callee :: pending) {index : Nat}
    (look : walk.entered.lookup callee = some index) :
    Sound graph
      { walk with
        frames :=
          { frame with
            pending
            low := if walk.stack.contains callee then min frame.low index else frame.low } ::
          frames } := by
  have layout := sound.layout
  rw [framed] at layout
  obtain ⟨above, below, split, isSection, called, layoutBelow⟩ := layout
  refine { sound with layout := ⟨above, below, split, ?_, called, layoutBelow⟩ }
  by_cases onStack : callee ∈ walk.stack
  · have reaches : graph.Reaches frame.node callee := .single (calls_of_pending isSection next)
    have lowered := sound.lower split isSection look onStack reaches
    have calleeSeen : Seen walk.entered walk.stack (min frame.low index) callee :=
      ⟨index, look, fun _ => Nat.min_le_right ..⟩
    rw [if_pos (List.contains_iff_mem.2 onStack)]
    exact lowered.advance next calleeSeen
  · have calleeSeen : Seen walk.entered walk.stack frame.low callee :=
      ⟨index, look, fun member => absurd member onStack⟩
    have notContained : ¬walk.stack.contains callee = true := by
      rw [List.contains_iff_mem]
      exact onStack
    rw [if_neg notContained]
    exact isSection.advance next calleeSeen

/-! ## Leaving a node -/

private theorem splitStack_append {node : CallableId} {above below : List CallableId}
    (absent : node ∉ above) :
    splitStack node (above ++ node :: below) = (above ++ [node], below) := by
  induction above with
  | nil => rw [List.nil_append, splitStack, if_pos rfl, List.nil_append]
  | cons top rest inductionHypothesis =>
    rw [List.mem_cons, not_or] at absent
    rw [List.cons_append, splitStack, if_neg (Ne.symm absent.1),
      inductionHypothesis absent.2]
    rfl

/-- A section whose frame reaches nothing lower is a component. -/
theorem Sound.isComponent (sound : Sound graph walk) {above below : List CallableId}
    (split : walk.stack = above ++ frame.node :: below)
    (isSection : IsSection graph walk.entered walk.stack frame above below)
    (complete : frame.pending = []) (closes : frame.low = frame.index) :
    IsComponent graph walk.components (above ++ [frame.node]) where
  nonempty := by simp
  connected left leftMember right rightMember :=
    (isSection.connected_of_mem leftMember).2.trans (isSection.connected_of_mem rightMember).1
  closed := by
    intro node member callee calls
    obtain ⟨index, look, bound⟩ := isSection.seen_of_calls complete member calls
    rcases List.mem_append.1 ((sound.placed callee).1 ⟨index, look⟩) with onStack | inComponents
    · left
      rw [split] at onStack
      rcases List.mem_append.1 onStack with inAbove | atNode
      · exact List.mem_append_left _ inAbove
      · rcases List.mem_cons.1 atNode with same | inBelow
        · rw [same]
          exact List.mem_append_right _ List.mem_cons_self
        · have lower := sound.lt_of_mem_below split isSection.index_eq look inBelow
          have higher := bound (split ▸ List.mem_append_right _ atNode)
          omega
    · exact .inr inComponents

/-- The walk stays sound when a section becomes a component. -/
theorem Sound.close (sound : Sound graph walk) {above below : List CallableId}
    (split : walk.stack = above ++ frame.node :: below)
    (isSection : IsSection graph walk.entered walk.stack frame above below)
    (complete : frame.pending = []) (closes : frame.low = frame.index)
    (layoutBelow : Layout graph walk.entered walk.stack frames below) :
    Sound graph
      { walk with
        frames := frames
        stack := below
        components := walk.components ++ [above ++ [frame.node]] } := by
  have moved : (walk.stack ++ walk.components.flatten).Perm
      (below ++ (walk.components ++ [above ++ [frame.node]]).flatten) := by
    rw [split, List.flatten_append, List.flatten_singleton, ← List.append_assoc below,
      ← List.singleton_append, ← List.append_assoc above, List.append_assoc (above ++ _)]
    exact List.perm_append_comm
  have continues : Continues walk.entered walk.stack walk.entered below :=
    { kept := fun _ _ look => look
      onStack := fun node _ _ inBelow => by
        rw [split]
        exact List.mem_append_right _ (List.mem_cons_of_mem _ inBelow) }
  exact
    { numbered := sound.numbered
      placed := fun node => (sound.placed node).trans moved.mem_iff
      distinct := moved.nodup_iff.1 sound.distinct
      ordered := by
        have kept : below.Sublist walk.stack := by
          rw [split]
          exact (List.sublist_cons_self _ _).trans (List.sublist_append_right _ _)
        exact kept.trans sound.ordered
      layout := layoutBelow.later continues
      finished := sound.finished.concat (sound.isComponent split isSection complete closes) }

/-- The walk stays sound when a section becomes a part of the section below it. -/
theorem Sound.merge (sound : Sound graph walk) {above below : List CallableId} {parent : Frame}
    (split : walk.stack = above ++ frame.node :: below)
    (isSection : IsSection graph walk.entered walk.stack frame above below)
    (complete : frame.pending = []) (staysOpen : frame.low ≠ frame.index)
    (called : graph.Calls parent.node frame.node)
    (layoutBelow : Layout graph walk.entered walk.stack (parent :: frames) below) :
    Sound graph
      { walk with frames := { parent with low := min parent.low frame.low } :: frames } := by
  obtain ⟨target, member, look, reaches⟩ := isSection.target
  -- The lowest index belongs to a node below, which leads back to the parent.
  have inBelow : target ∈ below := by
    rcases List.mem_cons.1 member with same | inBelow
    · rw [same, isSection.index_eq, Option.some.injEq] at look
      exact absurd look.symm staysOpen
    · exact inBelow
  have onStack : target ∈ walk.stack := by
    rw [split]
    exact List.mem_append_right _ member
  have backReaches : graph.Reaches frame.node parent.node :=
    reaches.trans (layoutBelow.reaches_node target inBelow)
  obtain ⟨parentAbove, parentBelow, splitBelow, parentSection, parentCalled, layoutRest⟩ :=
    layoutBelow
  have splitParent : walk.stack =
      ((above ++ [frame.node]) ++ parentAbove) ++ parent.node :: parentBelow := by
    rw [split, splitBelow]
    simp
  have lowered := sound.lower splitParent parentSection look onStack (.head called reaches)
  have absorbed := lowered.absorb (above ++ [frame.node])
    (fun node member =>
      ⟨.head called (isSection.connected_of_mem member).1,
        (isSection.connected_of_mem member).2.trans backReaches⟩)
    (fun node member callee calls =>
      (isSection.seen_of_calls complete member calls).lower (Nat.min_le_right ..))
  exact { sound with layout := ⟨_, parentBelow, splitParent, absorbed, parentCalled, layoutRest⟩ }

/-- The walk stays sound when it leaves a node. -/
theorem Sound.leave (sound : Sound graph walk) (framed : walk.frames = frame :: frames)
    (complete : frame.pending = []) : Sound graph (walk.leave frame frames) := by
  have layout := sound.layout
  rw [framed] at layout
  obtain ⟨above, below, split, isSection, called, layoutBelow⟩ := layout
  unfold Walk.leave
  by_cases closes : frame.low = frame.index
  · have absent : frame.node ∉ above := by
      intro inAbove
      have higher := sound.lt_of_mem_above split isSection.index_eq isSection.index_eq inAbove
      omega
    have closed := sound.close split isSection complete closes layoutBelow
    rw [if_pos closes, split, splitStack_append absent]
    cases frames with
    | nil => exact closed
    | cons parent rest =>
      -- The parent already reaches an index below the component.
      have keeps : min parent.low frame.low = parent.low := by
        obtain ⟨parentAbove, parentBelow, splitBelow, parentSection, -⟩ := layoutBelow
        have lower := sound.lt_of_mem_below split isSection.index_eq parentSection.index_eq
          (splitBelow ▸ List.mem_append_right _ List.mem_cons_self)
        have lowLe := parentSection.low_le
        omega
      show Sound graph { walk with
        frames := { parent with low := min parent.low frame.low } :: rest
        stack := below
        components := walk.components ++ [above ++ [frame.node]] }
      rw [keeps]
      exact closed
  · rw [if_neg closes]
    cases frames with
    | nil =>
      obtain ⟨target, member, look, -⟩ := isSection.target
      obtain rfl : below = [] := layoutBelow
      rw [List.mem_singleton.1 member, isSection.index_eq, Option.some.injEq] at look
      exact absurd look.symm closes
    | cons parent rest =>
      exact sound.merge split isSection complete closes (called parent rfl) layoutBelow

/-- The walk stays sound at every step. -/
theorem Sound.step (sound : Sound graph walk) : Sound graph (walk.step graph) := by
  unfold Walk.step
  cases framed : walk.frames with
  | nil => exact sound
  | cons frame frames =>
    cases next : frame.pending with
    | nil =>
      simp only [next]
      exact sound.leave framed next
    | cons callee pending =>
      simp only [next]
      cases look : walk.entered.lookup callee with
      | none => exact sound.enter_callee framed next look
      | some index => exact sound.look framed next look

end Walk

end CallGraph

end MappingForms
