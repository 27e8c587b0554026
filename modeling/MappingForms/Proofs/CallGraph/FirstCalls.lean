import MappingForms.Callables
import MappingForms.Proofs.Expr.Traversal
import Mathlib.Data.List.Nodup

/-!
Contract: the known callees of an expression are listed in the order of their first calls.

Owns: the calls at the places of a tree, the invariant of the search for callees, and the law that
the traversals of an expression see the same nodes.

The search passes the nodes of a tree in the order of their places. At any time it has found the
known callees of the places that it has passed. A callee that is found at a place was called at
no earlier one.
-/

set_option autoImplicit false

namespace MappingForms

namespace Expr

/-- At a place of the tree there is a call of a callee by its scope or as an extension. A call of
a method of the receiver itself does not count, since its target is chosen at run time. -/
def CallsAt (expr : Expr) (place : Place) (callee : CallableId) : Prop :=
  ∃ style receiver arguments optional type, style ≠ CallStyle.method ∧
    expr.nodeAt? place = some (call callee style receiver arguments optional type)

private theorem CallsAt.mem_places {expr : Expr} {place : Place} {callee : CallableId}
    (callsAt : expr.CallsAt place callee) : place ∈ expr.places := by
  obtain ⟨_, _, _, _, _, -, atPlace⟩ := callsAt
  rw [mem_places_iff, atPlace]
  rfl

end Expr

namespace Callables

private theorem calledId?_eq_some_iff {node : Expr} {callee : CallableId} :
    calledId? node = some callee ↔
      ∃ style receiver arguments optional type, style ≠ CallStyle.method ∧
        node = .call callee style receiver arguments optional type := by
  cases node with
  | call target style receiver arguments optional type =>
    by_cases isMethod : style = .method
    · simp [calledId?, isMethod]
    · simp [calledId?, isMethod]
  | _ => simp [calledId?]

theorem exists_callsAt_iff {expr : Expr} {callee : CallableId} :
    (∃ place, expr.CallsAt place callee) ↔
      ∃ node ∈ expr.nodes, calledId? node = some callee := by
  constructor
  · rintro ⟨place, style, receiver, arguments, optional, type, notMethod, atPlace⟩
    exact ⟨_, Expr.mem_nodes_iff.2 ⟨place, atPlace⟩,
      calledId?_eq_some_iff.2 ⟨style, receiver, arguments, optional, type, notMethod, rfl⟩⟩
  · rintro ⟨node, listed, called⟩
    obtain ⟨place, atPlace⟩ := Expr.mem_nodes_iff.1 listed
    obtain ⟨style, receiver, arguments, optional, type, notMethod, rfl⟩ :=
      calledId?_eq_some_iff.1 called
    exact ⟨place, style, receiver, arguments, optional, type, notMethod, atPlace⟩

def knownCallAt? (callables : Callables) (expr : Expr) (place : Place) : Option CallableId :=
  ((expr.nodeAt? place).bind calledId?).filter callables.contains

private theorem knownCallAt?_eq_some_iff {callables : Callables} {expr : Expr} {place : Place}
    {callee : CallableId} :
    callables.knownCallAt? expr place = some callee ↔
      callables.contains callee = true ∧ expr.CallsAt place callee := by
  unfold knownCallAt? Expr.CallsAt
  rw [Option.filter_eq_some_iff, and_comm]
  refine and_congr_right fun _ => ?_
  cases expr.nodeAt? place with
  | none => simp
  | some node => simp [calledId?_eq_some_iff]

/-- The search passes the nodes of a tree place by place. -/
theorem outgoingCalls_eq (callables : Callables) (expr : Expr) :
    callables.outgoingCalls expr =
      (expr.places.filterMap (callables.knownCallAt? expr)).foldl
        (fun found target => if found.contains target then found else found ++ [target]) [] := by
  have targetsEq : expr.nodes.filterMap calledId? =
      expr.places.filterMap fun place => (expr.nodeAt? place).bind calledId? := by
    have byPlace := congrArg (List.filterMap fun node => node.bind calledId?) expr.nodes_by_place
    rw [List.filterMap_map, List.filterMap_map] at byPlace
    exact byPlace
  rw [outgoingCalls, targetsEq, List.filter_filterMap]
  rfl

/-! ## The search for callees -/

/-- What the search has found once it has passed some places: the callees of these places, each
once, and in the order of their first calls. -/
structure FirstCalls (callAt? : Place → Option CallableId) (passed : List Place)
    (found : List CallableId) : Prop where
  distinct : found.Nodup
  mem_iff : ∀ callee, callee ∈ found ↔ ∃ place ∈ passed, callAt? place = some callee
  ordered : found.Pairwise fun first second =>
    ∃ place ∈ passed, callAt? place = some first ∧
      ∀ other ∈ passed, callAt? other = some second → place.Precedes other

section FirstCalls

variable {callAt? : Place → Option CallableId} {passed : List Place} {place : Place}
  {found : List CallableId} {callee : CallableId}

private theorem exists_concat_iff :
    (∃ other ∈ passed ++ [place], callAt? other = some callee) ↔
      (∃ other ∈ passed, callAt? other = some callee) ∨ callAt? place = some callee := by
  simp [or_and_right, exists_or]

/-- A later place changes nothing about the order of what was found before. -/
theorem FirstCalls.ordered_concat (firstCalls : FirstCalls callAt? passed found)
    (isLast : ∀ earlier ∈ passed, earlier.Precedes place) :
    found.Pairwise fun first second =>
      ∃ other ∈ passed ++ [place], callAt? other = some first ∧
        ∀ another ∈ passed ++ [place], callAt? another = some second → other.Precedes another := by
  refine firstCalls.ordered.imp ?_
  rintro first second ⟨other, listed, calls, precedes⟩
  refine ⟨other, List.mem_append_left _ listed, calls, ?_⟩
  intro another anotherListed anotherCalls
  rcases List.mem_append.1 anotherListed with earlier | last
  · exact precedes another earlier anotherCalls
  · rw [List.mem_singleton.1 last]
    exact isLast other listed

/-- A place without a call, or with a call of a callee that was found before. -/
theorem FirstCalls.pass (firstCalls : FirstCalls callAt? passed found)
    (isLast : ∀ earlier ∈ passed, earlier.Precedes place)
    (nothingNew : ∀ callee, callAt? place = some callee → callee ∈ found) :
    FirstCalls callAt? (passed ++ [place]) found where
  distinct := firstCalls.distinct
  mem_iff callee := by
    rw [exists_concat_iff, ← firstCalls.mem_iff]
    exact ⟨.inl, fun listed => listed.elim id (nothingNew callee)⟩
  ordered := firstCalls.ordered_concat isLast

/-- A place with the first call of a callee. -/
theorem FirstCalls.add (firstCalls : FirstCalls callAt? passed found)
    (isLast : ∀ earlier ∈ passed, earlier.Precedes place) (calls : callAt? place = some callee)
    (isNew : callee ∉ found) :
    FirstCalls callAt? (passed ++ [place]) (found ++ [callee]) where
  distinct := by
    rw [List.nodup_append]
    refine ⟨firstCalls.distinct, List.nodup_singleton callee, ?_⟩
    intro earlier listed last isCallee same
    rw [same, List.mem_singleton.1 isCallee] at listed
    exact isNew listed
  mem_iff other := by
    rw [exists_concat_iff, ← firstCalls.mem_iff, List.mem_append, List.mem_singleton, calls,
      Option.some.injEq]
    exact or_congr_right eq_comm
  ordered := by
    rw [List.pairwise_append]
    refine ⟨firstCalls.ordered_concat isLast, List.pairwise_singleton _ _, ?_⟩
    intro first listed second isSecond
    obtain ⟨other, otherListed, otherCalls⟩ := (firstCalls.mem_iff first).1 listed
    refine ⟨other, List.mem_append_left _ otherListed, otherCalls, ?_⟩
    rw [List.mem_singleton.1 isSecond]
    intro another anotherListed anotherCalls
    -- Whatever was found before stands before the place, and no earlier call is of this callee.
    rcases List.mem_append.1 anotherListed with earlier | last
    · exact absurd ((firstCalls.mem_iff callee).2 ⟨another, earlier, anotherCalls⟩) isNew
    · rw [List.mem_singleton.1 last]
      exact isLast other otherListed

/-- The search goes on through the places that are left. -/
theorem FirstCalls.foldl {rest : List Place} (firstCalls : FirstCalls callAt? passed found)
    (inOrder : (passed ++ rest).Pairwise Place.Precedes) :
    FirstCalls callAt? (passed ++ rest)
      ((rest.filterMap callAt?).foldl
        (fun found target => if found.contains target then found else found ++ [target])
        found) := by
  induction rest generalizing passed found with
  | nil =>
    rw [List.append_nil]
    exact firstCalls
  | cons place rest inductionHypothesis =>
    have isLast : ∀ earlier ∈ passed, earlier.Precedes place := fun earlier listed =>
      (List.pairwise_append.1 inOrder).2.2 earlier listed place List.mem_cons_self
    rw [List.append_cons] at inOrder ⊢
    cases calls : callAt? place with
    | none =>
      rw [List.filterMap_cons_none calls]
      exact inductionHypothesis (firstCalls.pass isLast (by simp [calls])) inOrder
    | some callee =>
      rw [List.filterMap_cons_some calls, List.foldl_cons]
      refine inductionHypothesis ?_ inOrder
      by_cases isKnown : callee ∈ found
      · rw [if_pos (List.contains_iff_mem.2 isKnown)]
        refine firstCalls.pass isLast ?_
        intro other otherCalls
        rw [calls, Option.some.injEq] at otherCalls
        exact otherCalls ▸ isKnown
      · rw [if_neg (by simpa using isKnown)]
        exact firstCalls.add isLast calls isKnown

end FirstCalls

private theorem firstCalls_outgoingCalls (callables : Callables) (expr : Expr) :
    FirstCalls (callables.knownCallAt? expr) expr.places (callables.outgoingCalls expr) := by
  have start : FirstCalls (callables.knownCallAt? expr) [] [] :=
    { distinct := List.nodup_nil
      mem_iff := by simp
      ordered := List.Pairwise.nil }
  rw [outgoingCalls_eq]
  exact start.foldl expr.places_ordered

/-- An outgoing call is one of a known callable, from somewhere in the expression. -/
theorem mem_outgoingCalls_iff (callables : Callables) (expr : Expr) (callee : CallableId) :
    callee ∈ callables.outgoingCalls expr ↔
      callables.contains callee = true ∧ ∃ place, expr.CallsAt place callee := by
  rw [(callables.firstCalls_outgoingCalls expr).mem_iff]
  constructor
  · rintro ⟨place, -, calls⟩
    obtain ⟨isKnown, callsAt⟩ := knownCallAt?_eq_some_iff.1 calls
    exact ⟨isKnown, place, callsAt⟩
  · rintro ⟨isKnown, place, callsAt⟩
    exact ⟨place, callsAt.mem_places, knownCallAt?_eq_some_iff.2 ⟨isKnown, callsAt⟩⟩

/-- Of two listed callees, the first is called somewhere before all calls of the second. -/
theorem outgoingCalls_ordered (callables : Callables) (expr : Expr) :
    (callables.outgoingCalls expr).Pairwise fun first second =>
      ∃ place, expr.CallsAt place first ∧
        ∀ other, expr.CallsAt other second → place.Precedes other := by
  refine (callables.firstCalls_outgoingCalls expr).ordered.imp_of_mem ?_
  rintro first second - secondListed ⟨place, -, calls, precedes⟩
  obtain ⟨isKnown, -⟩ := (callables.mem_outgoingCalls_iff expr second).1 secondListed
  refine ⟨place, (knownCallAt?_eq_some_iff.1 calls).2, ?_⟩
  intro other callsAt
  exact precedes other callsAt.mem_places (knownCallAt?_eq_some_iff.2 ⟨isKnown, callsAt⟩)

end Callables

/-- The traversals of an expression see the same nodes.

Changing the children of a node changes every child in its place. Everything else about the node
is kept, and the children are all that the data of the node leaves out. The nodes of a tree are
those at its places, each place once and in the order from the root on and from the first child
to the last. The callees that are listed for an expression are the known ones that are called at
some place of it. None is listed twice, and of two of them the one that is called first is listed
first. -/
theorem Expr.traversals_see_same_nodes (change : Expr → Expr) (callables : Callables)
    (expr : Expr) :
    ((expr.mapChildren change).children = expr.children.map change ∧
      (expr.mapChildren change).nodeData = expr.nodeData ∧
      ∀ other : Expr, other.nodeData = expr.nodeData →
        other.children = expr.children.map change → other = expr.mapChildren change) ∧
    (expr.nodes.map some = expr.places.map expr.nodeAt? ∧
      expr.places.Pairwise Place.Precedes ∧
      ∀ place, place ∈ expr.places ↔ (expr.nodeAt? place).isSome = true) ∧
    (callables.outgoingCalls expr).Nodup ∧
    (∀ callee, callee ∈ callables.outgoingCalls expr ↔
      callables.contains callee = true ∧ ∃ place, expr.CallsAt place callee) ∧
    (callables.outgoingCalls expr).Pairwise fun first second =>
      ∃ place, expr.CallsAt place first ∧
        ∀ other, expr.CallsAt other second → place.Precedes other := by
  have childrenEq := children_mapChildren change expr
  have dataEq := nodeData_mapChildren change expr
  refine ⟨⟨childrenEq, dataEq, ?_⟩, ⟨expr.nodes_by_place, expr.places_ordered, ?_⟩,
    (callables.firstCalls_outgoingCalls expr).distinct, callables.mem_outgoingCalls_iff expr,
    callables.outgoingCalls_ordered expr⟩
  · intro other sameData sameChildren
    exact eq_of_nodeData_of_children (sameData.trans dataEq.symm)
      (sameChildren.trans childrenEq.symm)
  · exact fun _ => mem_places_iff

end MappingForms
