import MappingForms.CallGraph
import MappingForms.Proofs.Table
import Mathlib.Logic.Relation

/-!
Contract: the calls of a graph as a relation.

Owns: direct calls, reachability and cycles of calls, and the fact that the table of
callers lists the calls of a graph backwards.

A callable reaches itself without a call. It lies on a cycle only if it reaches
itself by at least one call, so a callable that calls itself lies on a cycle.
-/

set_option autoImplicit false

namespace MappingForms

namespace CallGraph

variable (graph : CallGraph)

def Calls (caller callee : CallableId) : Prop := callee ∈ graph.callees caller

/-- One callable reaches another one by any number of calls. -/
abbrev Reaches : CallableId → CallableId → Prop := Relation.ReflTransGen graph.Calls

/-- A callable reaches itself by at least one call. -/
def OnCycle (id : CallableId) : Prop := Relation.TransGen graph.Calls id id

def LeadsToCycle (id : CallableId) : Prop := ∃ node, graph.Reaches id node ∧ graph.OnCycle node

variable {graph}

theorem OnCycle.leadsToCycle {id : CallableId} (onCycle : graph.OnCycle id) :
    graph.LeadsToCycle id :=
  ⟨id, .refl, onCycle⟩

/-- What leads to a cycle makes its callers do so. -/
theorem LeadsToCycle.of_calls {caller callee : CallableId} (calls : graph.Calls caller callee)
    (leads : graph.LeadsToCycle callee) : graph.LeadsToCycle caller := by
  obtain ⟨node, reaches, onCycle⟩ := leads
  exact ⟨node, .head calls reaches, onCycle⟩

/-- A callable on a cycle calls a callable that reaches it. -/
theorem OnCycle.exists_calls {id : CallableId} (onCycle : graph.OnCycle id) :
    ∃ callee, graph.Calls id callee ∧ graph.Reaches callee id :=
  Relation.TransGen.head'_iff.1 onCycle

/-- Reachability keeps within a set that contains the callees of its members. -/
theorem Reaches.mem_of_closed {caller callee : CallableId}
    (reaches : graph.Reaches caller callee) (within : CallableId → Prop)
    (closed : ∀ node, within node → ∀ next, graph.Calls node next → within next)
    (starts : within caller) : within callee := by
  induction reaches with
  | refl => exact starts
  | tail _ calls inductionHypothesis => exact closed _ inductionHypothesis _ calls

/-! ## Nodes -/

private theorem calls_iff_mem_entries {caller callee : CallableId} :
    graph.Calls caller callee ↔
      ∃ listed, (caller, listed) ∈ graph.edges.entries ∧ callee ∈ listed := by
  unfold Calls callees
  constructor
  · intro calls
    cases found : graph.edges.get? caller with
    | none =>
      rw [found] at calls
      cases calls
    | some listed =>
      rw [found] at calls
      exact ⟨listed, (graph.edges.get?_eq_some_iff caller listed).1 found, calls⟩
  · intro ⟨listed, member, calls⟩
    rw [(graph.edges.get?_eq_some_iff caller listed).2 member]
    exact calls

theorem mem_nodes_of_calls {caller callee : CallableId} (calls : graph.Calls caller callee) :
    caller ∈ graph.nodes := by
  obtain ⟨listed, member, -⟩ := calls_iff_mem_entries.1 calls
  exact (graph.edges.mem_keys_iff caller).2 ⟨listed, member⟩

/-! ## Callers -/

private theorem getD_addCaller (caller : CallableId) (listed : List CallableId)
    (reverse : Table CallableId (List CallableId)) (sought : CallableId) :
    ((listed.foldl (fun reverse callee => reverse.update callee [] (· ++ [caller]))
        reverse).get? sought).getD [] =
      (reverse.get? sought).getD [] ++ List.replicate (listed.count sought) caller := by
  induction listed generalizing reverse with
  | nil => simp
  | cons callee rest inductionHypothesis =>
    rw [List.foldl_cons, inductionHypothesis, Table.get?_update]
    by_cases same : sought = callee
    · rw [if_pos same, same, Option.getD_some, List.count_cons_self, List.append_assoc,
        List.singleton_append, List.replicate_succ]
    · rw [if_neg same, List.count_cons_of_ne (Ne.symm same)]

private theorem getD_addCallers (entries : List (CallableId × List CallableId))
    (reverse : Table CallableId (List CallableId)) (sought : CallableId) :
    ((entries.foldl
        (fun reverse entry =>
          entry.2.foldl (fun reverse callee => reverse.update callee [] (· ++ [entry.1]))
            (reverse.insertIfNew entry.1 []))
        reverse).get? sought).getD [] =
      (reverse.get? sought).getD [] ++
        entries.flatMap fun entry => List.replicate (entry.2.count sought) entry.1 := by
  induction entries generalizing reverse with
  | nil => simp
  | cons entry rest inductionHypothesis =>
    -- Making the caller a node changes no list of callers.
    have kept : ((reverse.insertIfNew entry.1 []).get? sought).getD [] =
        (reverse.get? sought).getD [] := by
      rw [Table.get?_insertIfNew]
      by_cases same : sought = entry.1
      · rw [if_pos same, same, Option.getD_some]
      · rw [if_neg same]
    rw [List.foldl_cons, inductionHypothesis, getD_addCaller, kept, List.flatMap_cons,
      List.append_assoc]

/-- Callers are listed in the order of identities, each as often as it calls. -/
theorem getD_callers (graph : CallGraph) (callee : CallableId) :
    (graph.callers.get? callee).getD [] =
      graph.edges.entries.flatMap fun entry => List.replicate (entry.2.count callee) entry.1 :=
  getD_addCallers graph.edges.entries ∅ callee

/-- The callers of a callable are those that call it. -/
theorem mem_callers_iff {caller callee : CallableId} :
    caller ∈ (graph.callers.get? callee).getD [] ↔ graph.Calls caller callee := by
  rw [getD_callers, calls_iff_mem_entries, List.mem_flatMap]
  constructor
  · rintro ⟨⟨listedCaller, listed⟩, member, replicated⟩
    obtain ⟨called, rfl⟩ := List.mem_replicate.1 replicated
    exact ⟨listed, member, List.count_pos_iff.1 (Nat.pos_of_ne_zero called)⟩
  · rintro ⟨listed, member, calls⟩
    have called := List.count_pos_iff.2 calls
    exact ⟨(caller, listed), member, List.mem_replicate.2 ⟨Nat.ne_of_gt called, rfl⟩⟩

end CallGraph

end MappingForms
