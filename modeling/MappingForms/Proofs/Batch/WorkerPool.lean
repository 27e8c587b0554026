import MappingForms.Proofs.Batch.Reassembly
import Mathlib.Algebra.GroupWithZero.Nat
import Mathlib.Logic.Relation

/-!
Contract: the results of a batch do not depend on its workers.

Owns: the pool of workers as a step relation, what every step preserves, the end of every
run, and the law that the results of a finished run are reassembled in declaration order.

Workers share a counter and a channel. A worker takes the value of the counter and
increments it in one step; it computes the outcome of the specification with that index,
sends it, and starts again. The first index past the end stops it. Steps of different
workers come in any order, and the channel delivers every message once, in any order.
-/

set_option autoImplicit false

namespace MappingForms

namespace Batch

inductive Worker where
  /-- It is about to take an index. -/
  | ready
  /-- It computes the outcome of the specification with an index. -/
  | working (index : Nat) (spec : Specification)
  /-- It is about to send an outcome. -/
  | sending (index : Nat) (outcome : Outcome)
  /-- It took an index past the end. -/
  | stopped

/-- The state of all workers and of what they share. -/
structure Pool where
  /-- The index that is taken next. -/
  next : Nat
  workers : List Worker
  /-- The messages sent so far. -/
  sent : List (Nat × Outcome)

namespace Pool

def start (count : Nat) : Pool := ⟨0, List.replicate count .ready, []⟩

/-- No worker is left that can take a step. -/
def AllStopped (pool : Pool) : Prop := ∀ worker ∈ pool.workers, worker = .stopped

variable (specs : List Specification) (work : Specification → Outcome)

/-- One worker takes a step, and all others stay as they are. -/
inductive Step : Pool → Pool → Prop where
  | take (before after : List Worker) {next : Nat} {sent : List (Nat × Outcome)}
      {spec : Specification} (found : specs[next]? = some spec) :
      Step ⟨next, before ++ .ready :: after, sent⟩
        ⟨next + 1, before ++ .working next spec :: after, sent⟩
  | stop (before after : List Worker) {next : Nat} {sent : List (Nat × Outcome)}
      (past : specs[next]? = none) :
      Step ⟨next, before ++ .ready :: after, sent⟩ ⟨next + 1, before ++ .stopped :: after, sent⟩
  | compute (before after : List Worker) {next index : Nat} {sent : List (Nat × Outcome)}
      {spec : Specification} :
      Step ⟨next, before ++ .working index spec :: after, sent⟩
        ⟨next, before ++ .sending index (work spec) :: after, sent⟩
  | send (before after : List Worker) {next index : Nat} {sent : List (Nat × Outcome)}
      {outcome : Outcome} :
      Step ⟨next, before ++ .sending index outcome :: after, sent⟩
        ⟨next, before ++ .ready :: after, sent ++ [(index, outcome)]⟩

/-- Any number of steps, taken by any workers in any order. -/
abbrev Runs : Pool → Pool → Prop := Relation.ReflTransGen (Step specs work)

/-! ## What steps preserve -/

/-- The message that a worker is going to send before it takes another index. -/
def owed : Worker → Option (Nat × Outcome)
  | .working index spec => some (index, work spec)
  | .sending index outcome => some (index, outcome)
  | .ready | .stopped => none

/-- What holds in every state of a run. -/
structure Consistent (count : Nat) (pool : Pool) : Prop where
  size : pool.workers.length = count
  /-- The outcome of every index that was taken is sent or owed, and no other, and once. -/
  accounted : (pool.sent ++ pool.workers.filterMap (owed work)).Perm
    ((results specs work).take pool.next)
  /-- A worker stops only when all indices were taken. -/
  exhausted : .stopped ∈ pool.workers → specs.length ≤ pool.next

variable {specs work}

private theorem consistent_start (count : Nat) : Consistent specs work count (start count) where
  size := List.length_replicate
  accounted := by
    have nothingOwed : (List.replicate count Worker.ready).filterMap (owed work) = [] := by
      rw [List.filterMap_eq_nil_iff]
      intro worker listed
      rw [List.eq_of_mem_replicate listed]
      rfl
    show ([] ++ (List.replicate count Worker.ready).filterMap (owed work)).Perm []
    rw [nothingOwed]
    exact .nil
  exhausted := by
    intro listed
    cases List.eq_of_mem_replicate listed

/-- A step of any worker keeps a pool consistent. -/
theorem Consistent.step {count : Nat} {pool later : Pool}
    (consistent : Consistent specs work count pool) (step : Step specs work pool later) :
    Consistent specs work count later := by
  obtain ⟨size, accounted, exhausted⟩ := consistent
  cases step with
  | @take before after next sent spec found =>
    refine ⟨by simpa using size, ?_, ?_⟩
    · have taken : (results specs work).take (next + 1) =
          (results specs work).take next ++ [(next, work spec)] := by
        rw [List.take_add_one, getElem?_results, found]
        rfl
      rw [taken]
      simp only [List.filterMap_append, List.filterMap_cons, owed] at accounted ⊢
      rw [← List.append_assoc] at accounted ⊢
      exact List.perm_middle.trans ((accounted.cons _).trans (List.perm_append_singleton _ _).symm)
    · have inside : next < specs.length := (List.getElem?_eq_some_iff.1 found).1
      intro listed
      have earlier : specs.length ≤ next := by
        apply exhausted
        simpa using listed
      omega
  | @stop before after next sent past =>
    have end_le : specs.length ≤ next := List.getElem?_eq_none_iff.1 past
    refine ⟨by simpa using size, ?_, fun _ => Nat.le_succ_of_le end_le⟩
    have whole : ∀ bound, next ≤ bound → (results specs work).take bound = results specs work := by
      intro bound above
      apply List.take_of_length_le
      rw [length_results]
      omega
    rw [whole next (Nat.le_refl _)] at accounted
    rw [whole (next + 1) (Nat.le_succ _)]
    simpa only [List.filterMap_append, List.filterMap_cons, owed] using accounted
  | compute before after =>
    refine ⟨by simpa using size, ?_, ?_⟩
    · simpa only [List.filterMap_append, List.filterMap_cons, owed] using accounted
    · simpa using exhausted
  | @send before after next index sent outcome =>
    refine ⟨by simpa using size, ?_, ?_⟩
    · simp only [List.filterMap_append, List.filterMap_cons, owed] at accounted ⊢
      refine List.Perm.trans ?_ accounted
      rw [List.append_assoc, List.singleton_append]
      exact List.Perm.append_left sent List.perm_middle.symm
    · simpa using exhausted

/-- A pool stays consistent throughout a run. -/
theorem Consistent.runs {count : Nat} {pool later : Pool}
    (consistent : Consistent specs work count pool) (runs : Runs specs work pool later) :
    Consistent specs work count later := by
  induction runs with
  | refl => exact consistent
  | tail _ step inductionHypothesis => exact inductionHypothesis.step step

/-- When all workers have stopped, the messages are the results of all specifications. -/
theorem Consistent.sent_perm {count : Nat} {pool : Pool}
    (consistent : Consistent specs work count pool) (positive : 0 < count)
    (allStopped : pool.AllStopped) : pool.sent.Perm (results specs work) := by
  have someStopped : .stopped ∈ pool.workers := by
    obtain ⟨worker, listed⟩ : ∃ worker, worker ∈ pool.workers := by
      apply List.exists_mem_of_length_pos
      rw [consistent.size]
      exact positive
    rw [← allStopped worker listed]
    exact listed
  have nothingOwed : pool.workers.filterMap (owed work) = [] := by
    rw [List.filterMap_eq_nil_iff]
    intro worker listed
    rw [allStopped worker listed]
    rfl
  have allTaken : (results specs work).take pool.next = results specs work := by
    apply List.take_of_length_le
    rw [length_results]
    exact consistent.exhausted someStopped
  have accounted := consistent.accounted
  rw [nothingOwed, List.append_nil, allTaken] at accounted
  exact accounted

/-! ## The end of a run -/

/-- How many steps a worker takes at most until it takes the next index, that one included. -/
def stepsLeft : Worker → Nat
  | .working .. => 3
  | .sending .. => 2
  | .ready => 1
  | .stopped => 0

/-- A bound on the steps that are left. -/
def remaining (specs : List Specification) (pool : Pool) : Nat :=
  3 * (specs.length - pool.next) + (pool.workers.map stepsLeft).sum

private theorem remaining_eq (specs : List Specification) (next : Nat) (before after : List Worker)
    (worker : Worker) (sent : List (Nat × Outcome)) :
    remaining specs ⟨next, before ++ worker :: after, sent⟩ =
      3 * (specs.length - next) + stepsLeft worker + ((before ++ after).map stepsLeft).sum := by
  simp only [remaining, List.map_append, List.map_cons, List.sum_append, List.sum_cons]
  omega

private theorem remaining_step {pool later : Pool} (step : Step specs work pool later) :
    remaining specs later < remaining specs pool := by
  cases step with
  | @take before after next sent spec found =>
    have inside : next < specs.length := (List.getElem?_eq_some_iff.1 found).1
    rw [remaining_eq, remaining_eq]
    simp only [stepsLeft]
    omega
  | stop before after past =>
    rw [remaining_eq, remaining_eq]
    simp only [stepsLeft]
    omega
  | compute before after =>
    rw [remaining_eq, remaining_eq]
    simp only [stepsLeft]
    omega
  | send before after =>
    rw [remaining_eq, remaining_eq]
    simp only [stepsLeft]
    omega

/-- As long as some worker has not stopped, a step is possible. -/
theorem exists_step (specs : List Specification) (work : Specification → Outcome) {pool : Pool}
    (unfinished : ¬pool.AllStopped) : ∃ later, Step specs work pool later := by
  obtain ⟨next, workers, sent⟩ := pool
  unfold AllStopped at unfinished
  push Not at unfinished
  obtain ⟨worker, listed, active⟩ := unfinished
  obtain ⟨before, after, rfl⟩ := List.append_of_mem listed
  cases worker with
  | ready =>
    cases found : specs[next]? with
    | some spec => exact ⟨_, .take before after found⟩
    | none => exact ⟨_, .stop before after found⟩
  | working index spec => exact ⟨_, .compute before after⟩
  | sending index outcome => exact ⟨_, .send before after⟩
  | stopped => exact absurd rfl active

/-- No run goes on forever. -/
theorem wellFounded_step (specs : List Specification) (work : Specification → Outcome) :
    WellFounded fun later pool => Step specs work pool later :=
  Subrelation.wf remaining_step (measure (remaining specs)).wf

/-- Every run can go on until all workers have stopped. -/
theorem exists_runs_allStopped (specs : List Specification) (work : Specification → Outcome)
    (pool : Pool) : ∃ final, Runs specs work pool final ∧ final.AllStopped := by
  induction pool using (wellFounded_step specs work).induction with
  | _ pool inductionHypothesis =>
    by_cases finished : pool.AllStopped
    · exact ⟨pool, .refl, finished⟩
    · obtain ⟨later, step⟩ := exists_step specs work finished
      obtain ⟨final, runs, allStopped⟩ := inductionHypothesis later step
      exact ⟨final, .head step runs, allStopped⟩

/-! ## The results of a finished run -/

/-- Some results can be what the channel delivers: a run has ended, and every message that was
sent in it is delivered once. -/
def Delivers (specs : List Specification) (work : Specification → Outcome) (count : Nat)
    (received : List (Nat × Outcome)) : Prop :=
  ∃ pool, Runs specs work (start count) pool ∧ pool.AllStopped ∧ received.Perm pool.sent

private theorem Delivers.reassemble_eq {count : Nat} {received : List (Nat × Outcome)}
    (delivers : Delivers specs work count received) (positive : 0 < count) :
    reassemble received =
      (specs.filterMap fun spec => output? (work spec),
        specs.findSome? fun spec => fault? (work spec)) := by
  obtain ⟨pool, runs, allStopped, delivered⟩ := delivers
  have consistent := (consistent_start count).runs runs
  apply reassemble_of_perm
  exact delivered.trans (consistent.sent_perm positive allStopped)

private theorem workerCount_pos (options : Options) (available : Option Nat) (jobs : Nat) :
    0 < options.workerCount available jobs := by
  unfold Options.workerCount
  omega

/-- The workers of a batch lose no result, return none twice and cannot change their order.

However many workers there are and however their steps interleave, the run comes to an end with
all workers stopped. Reassembly then gives the outputs of the specifications that have one, in
declaration order, and the fault of the earliest specification that has one. A batch assembled
from these results is therefore the same for every number of workers that is asked for, and for
every host. Where no specification faults it is the result of generation. -/
theorem workers_keep_declaration_order :
    (∀ (specs : List Specification) (work : Specification → Outcome) (count : Nat),
      WellFounded (fun later pool => Step specs work pool later) ∧
      (∀ pool, Runs specs work (start count) pool →
        ∃ final, Runs specs work pool final ∧ final.AllStopped) ∧
      (0 < count → ∀ received, Delivers specs work count received →
        reassemble received =
          (specs.filterMap fun spec => output? (work spec),
            specs.findSome? fun spec => fault? (work spec)))) ∧
    (∀ (unit : CompilationUnit) (options : Options) (work : Specification → Outcome)
      (parallelism available : Option Nat) (received : List (Nat × Outcome)),
      Delivers (unit.discover options.defaults).specs work
          ({ options with parallelism }.workerCount available
            (unit.discover options.defaults).specs.length) received →
        assembled unit { options with parallelism } (reassemble received) =
          assembled unit options
            ((unit.discover options.defaults).specs.filterMap fun spec => output? (work spec),
              (unit.discover options.defaults).specs.findSome? fun spec => fault? (work spec)) ∧
        ((∀ spec, work spec = .ok (generateSpec (sharedOf unit options) spec)) →
          assembled unit { options with parallelism } (reassemble received) =
            generate unit options)) := by
  constructor
  · intro specs work count
    refine ⟨wellFounded_step specs work, ?_, ?_⟩
    · intro pool _
      exact exists_runs_allStopped specs work pool
    · intro positive received delivers
      exact delivers.reassemble_eq positive
  · intro unit options work parallelism available received delivers
    have inOrder := delivers.reassemble_eq (workerCount_pos _ available _)
    refine ⟨congrArg (assembled unit options) inOrder, ?_⟩
    intro generates
    obtain rfl : work = fun spec => .ok (generateSpec (sharedOf unit options) spec) :=
      funext generates
    have fromResults := reassemble_of_perm (List.Perm.refl (results
      (unit.discover options.defaults).specs fun spec =>
        .ok (generateSpec (sharedOf unit options) spec)))
    exact congrArg (assembled unit options) (inOrder.trans fromResults.symm)

namespace Overtaking

/-- `Dest Name(Source source) => source;`, marked for generation. -/
def method (name : String) : Method where
  name := name
  parameters := [⟨"source", .reference "Source"⟩]
  returnType := .reference "Dest"
  body := .expression (.parameter "source" (.reference "Source"))
  marker := some {}

def unit : CompilationUnit where
  scopes := [{ name := "Mappers", methods := [method "Alpha", method "Boom", method "Zeta"] }]

def named (name : String) : Specification where
  id := (method name).id "Mappers"
  scope := ⟨none, "Mappers", false⟩
  parameter := ⟨"source", .reference "Source"⟩
  returnType := .reference "Dest"
  body := .parameter "source" (.reference "Source")
  options := .ofMarker {}
  span := {}

def output (spec : Specification) : SpecOutput :=
  { artifacts := [⟨Artifact.fileName spec .expression, .expression, spec.id, ""⟩] }

/-- One specification faults, and each of the others gives an artifact. -/
def outcomeOf (spec : Specification) : Outcome :=
  if spec.id.name = "Boom" then .error "injected fault" else .ok (output spec)

/-- The second worker takes and sends two results while the first works on one. -/
def arrived : List (Nat × Outcome) :=
  [(1, outcomeOf (named "Boom")), (2, outcomeOf (named "Zeta")), (0, outcomeOf (named "Alpha"))]

private theorem runs_arrived :
    Runs (unit.discover {}).specs outcomeOf (start 2) ⟨5, [.stopped, .stopped], arrived⟩ :=
  .head (.take [] [.ready] rfl) <|
  .head (.take [.working 0 (named "Alpha")] [] rfl) <|
  .head (.compute [.working 0 (named "Alpha")] []) <|
  .head (.send [.working 0 (named "Alpha")] []) <|
  .head (.take [.working 0 (named "Alpha")] [] rfl) <|
  .head (.compute [.working 0 (named "Alpha")] []) <|
  .head (.send [.working 0 (named "Alpha")] []) <|
  .head (.stop [.working 0 (named "Alpha")] [] rfl) <|
  .head (.compute [] [.stopped]) <|
  .head (.send [] [.stopped]) <|
  .single (.stop [] [.stopped] rfl)

private theorem delivers_arrived : Delivers (unit.discover {}).specs outcomeOf 2 arrived :=
  ⟨_, runs_arrived, by simp [AllStopped], .refl _⟩

/-- The result that is sent last is the first in declaration order. The batch with two workers
has the artifacts of both specifications and reports the fault, and without the fault it is the
result of generation. -/
theorem overtaken_result_comes_first :
    reassemble arrived =
      ([output (named "Alpha"), output (named "Zeta")], some "injected fault") ∧
    (assembled unit { parallelism := some 2 } (reassemble arrived)).artifacts.map (·.name) =
      ["Mappers.Alpha.Expression.g.cs", "Mappers.Zeta.Expression.g.cs"] ∧
    ∃ received,
      Delivers (unit.discover {}).specs (fun spec => .ok (generateSpec (sharedOf unit {}) spec)) 2
        received ∧
      assembled unit { parallelism := some 2 } (reassemble received) = generate unit {} := by
  obtain ⟨returned, sameBatch⟩ := workers_keep_declaration_order
  refine ⟨?_, ?_, ?_⟩
  · rw [(returned (unit.discover {}).specs outcomeOf 2).2.2 (by decide) _ delivers_arrived]
    decide
  · rw [(sameBatch unit {} outcomeOf (some 2) none _ delivers_arrived).1]
    decide
  · obtain ⟨final, runs, allStopped⟩ :=
      (returned (unit.discover {}).specs
        (fun spec => .ok (generateSpec (sharedOf unit {}) spec)) 2).2.1 (start 2) .refl
    have delivers : Delivers (unit.discover {}).specs
        (fun spec => .ok (generateSpec (sharedOf unit {}) spec)) 2 final.sent :=
      ⟨final, runs, allStopped, .refl _⟩
    exact ⟨_, delivers, (sameBatch unit {} _ (some 2) none _ delivers).2 fun _ => rfl⟩

end Overtaking

end Pool

end Batch

end MappingForms
