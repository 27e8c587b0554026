import MappingForms.Batch
import Mathlib.Data.List.Nodup

/-!
Contract: results come back in the order of declaration, whatever order they come in.

Owns: the outcomes of a list of specifications with their indices, the law that reassembly
recovers the order of declaration from every order of arrival, and a batch as a function of
its reassembled results.
-/

set_option autoImplicit false

namespace MappingForms

namespace Batch

/-! ## Outcomes -/

def output? : Outcome → Option SpecOutput
  | .ok output => some output
  | .error _ => none

def fault? : Outcome → Option String
  | .ok _ => none
  | .error fault => some fault

/-- The outcomes of all specifications with their indices, in declaration order. -/
def results (specs : List Specification) (work : Specification → Outcome) :
    List (Nat × Outcome) :=
  specs.zipIdx.map fun entry => (entry.2, work entry.1)

private theorem pairwise_results (specs : List Specification) (work : Specification → Outcome) :
    (results specs work).Pairwise fun earlier later => earlier.1 < later.1 := by
  have increasing : (specs.zipIdx.map Prod.snd).Pairwise (· < ·) := by
    rw [List.zipIdx_map_snd]
    exact List.pairwise_lt_range'
  unfold results
  rw [List.pairwise_map] at increasing ⊢
  exact increasing

private theorem map_snd_results (specs : List Specification) (work : Specification → Outcome) :
    (results specs work).map (·.2) = specs.map work := by
  unfold results
  rw [List.map_map]
  calc specs.zipIdx.map (work ∘ Prod.fst)
      = (specs.zipIdx.map Prod.fst).map work := (List.map_map ..).symm
    _ = specs.map work := by rw [List.zipIdx_map_fst]

/-- The outcome of a specification stands at its index. -/
theorem getElem?_results (specs : List Specification) (work : Specification → Outcome)
    (index : Nat) :
    (results specs work)[index]? = specs[index]?.map fun spec => (index, work spec) := by
  unfold results
  rw [List.getElem?_map, List.getElem?_zipIdx, Option.map_map, Nat.zero_add]
  rfl

theorem length_results (specs : List Specification) (work : Specification → Outcome) :
    (results specs work).length = specs.length := by
  unfold results
  rw [List.length_map, List.length_zipIdx]

/-! ## Reassembly -/

/-- Indices are distinct, so there is one way to put results in order. -/
theorem mergeSort_of_perm_results {specs : List Specification} {work : Specification → Outcome}
    {received : List (Nat × Outcome)} (delivered : received.Perm (results specs work)) :
    received.mergeSort (fun left right => left.1 ≤ right.1) = results specs work := by
  have ordered := pairwise_results specs work
  have sorted : (received.mergeSort fun left right => left.1 ≤ right.1).Pairwise
      fun left right => decide (left.1 ≤ right.1) = true := by
    apply List.pairwise_mergeSort
    · intro first second third
      simp only [decide_eq_true_eq]
      omega
    · intro first second
      simp only [Bool.or_eq_true, decide_eq_true_eq]
      omega
  have distinct : ((results specs work).map (·.1)).Nodup :=
    List.pairwise_map.2 (ordered.imp Nat.ne_of_lt)
  apply List.Perm.eq_of_pairwise _ sorted (ordered.imp fun below => decide_eq_true (by omega))
    ((List.mergeSort_perm received _).trans delivered)
  intro first second isFirst isSecond firstBelow secondBelow
  rw [decide_eq_true_eq] at firstBelow secondBelow
  have firstListed := delivered.mem_iff.1 (List.mem_mergeSort.1 isFirst)
  apply List.inj_on_of_nodup_map distinct firstListed isSecond
  omega

/-- Results that are all there, each once, give the outputs in declaration order and the fault
of the earliest specification that has one. -/
theorem reassemble_of_perm {specs : List Specification} {work : Specification → Outcome}
    {received : List (Nat × Outcome)} (delivered : received.Perm (results specs work)) :
    reassemble received =
      (specs.filterMap fun spec => output? (work spec),
        specs.findSome? fun spec => fault? (work spec)) := by
  have inOrder : reassemble received =
      (((received.mergeSort fun left right => left.1 ≤ right.1).map (·.2)).filterMap output?,
        ((received.mergeSort fun left right => left.1 ≤ right.1).map (·.2)).findSome? fault?) := rfl
  rw [inOrder, mergeSort_of_perm_results delivered, map_snd_results, List.filterMap_map,
    List.findSome?_map]
  rfl

/-! ## A batch by its results -/

def Shared.ofCallables (callables : Callables) (context : NullableContext) : Shared where
  callables := callables
  cycles := (CallGraph.ofCallables callables).detectCycles
  context := context

/-- What the specifications of a unit share. -/
def sharedOf (unit : CompilationUnit) (options : Options) : Shared :=
  .ofCallables (unit.discover options.defaults).callables unit.nullable

/-- What a batch gives once the results of its specifications are in order. -/
def assembled (unit : CompilationUnit) (options : Options)
    (reassembled : List SpecOutput × Option String) : Result where
  artifacts := reassembled.1.flatMap (·.artifacts)
  diagnostics := (unit.discover options.defaults).diagnostics ++
    (unit.discover options.defaults).specs.filterMap
      (cycleWarning? (sharedOf unit options).cycles) ++
    reassembled.1.flatMap (·.diagnostics) ++ faultDiagnostics options reassembled.2

private theorem generate_eq_assembled (unit : CompilationUnit) (options : Options) :
    generate unit options =
      assembled unit options
        ((unit.discover options.defaults).specs.map (generateSpec (sharedOf unit options)),
          none) := by
  have inOrder := reassemble_of_perm
    (List.Perm.refl (results (unit.discover options.defaults).specs fun spec =>
      .ok (generateSpec (sharedOf unit options) spec)))
  have noFault : (unit.discover options.defaults).specs.findSome?
      (fun spec => fault? (.ok (generateSpec (sharedOf unit options) spec))) = none := by
    simp [fault?]
  have allOutputs : (unit.discover options.defaults).specs.filterMap
      (fun spec => output? (.ok (generateSpec (sharedOf unit options) spec))) =
        (unit.discover options.defaults).specs.map (generateSpec (sharedOf unit options)) :=
    congrFun List.filterMap_eq_map _
  rw [noFault, allOutputs] at inOrder
  exact congrArg (assembled unit options) inOrder

/-- The artifacts of a batch are those of its specifications, in declaration order. -/
theorem generate_artifacts (unit : CompilationUnit) (options : Options) :
    (generate unit options).artifacts =
      (unit.discover options.defaults).specs.flatMap fun spec =>
        (generateSpec (sharedOf unit options) spec).artifacts := by
  rw [generate_eq_assembled]
  exact List.flatMap_map ..

/-- The diagnostics of a batch are those of discovery, the warnings about cycles and those of the
specifications, the last two in declaration order. -/
theorem generate_diagnostics (unit : CompilationUnit) (options : Options) :
    (generate unit options).diagnostics =
      (unit.discover options.defaults).diagnostics ++
        (unit.discover options.defaults).specs.filterMap
          (cycleWarning? (sharedOf unit options).cycles) ++
        (unit.discover options.defaults).specs.flatMap fun spec =>
          (generateSpec (sharedOf unit options) spec).diagnostics := by
  rw [generate_eq_assembled]
  show _ ++ _ ++ List.flatMap _ (List.map _ _) ++ [] = _
  rw [List.append_nil, List.flatMap_map]

end Batch

end MappingForms
