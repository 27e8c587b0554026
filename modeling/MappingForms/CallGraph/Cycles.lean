import MappingForms.CallGraph.Components

/-!
Contract: the callables that must not be expanded.

Owns: the reasons why a callable is unsafe, and the report that lists the unsafe
callables of a graph.

A callable is unsafe if it lies on a cycle of calls, or if it calls an unsafe
callable. Callables of the second kind are found by a breadth-first walk against
the calls, so each is explained by a callee on a shortest way into a cycle.
-/

set_option autoImplicit false

namespace MappingForms

/-- Why a callable is unsafe. -/
inductive Unsafety where
  /-- It lies on a cycle; the members of its component in identity order. -/
  | onCycle (members : List CallableId)
  /-- It calls an unsafe callee. -/
  | dependsOn (callee : CallableId)
deriving DecidableEq

/-- The unsafe callables of a graph. -/
abbrev CycleReport := Table CallableId Unsafety

namespace CycleReport

def isUnsafe (report : CycleReport) (id : CallableId) : Bool := report.contains id

end CycleReport

namespace CallGraph

/-- A component is a cycle if it has several members or its member calls itself. -/
def isCycle (graph : CallGraph) : List CallableId → Bool
  | [single] => (graph.callees single).contains single
  | _ => true

def cyclic (graph : CallGraph) : CycleReport :=
  (graph.components.filter graph.isCycle).foldl
    (fun report component =>
      let members := component.mergeSort fun left right => (compare left right).isLE
      members.foldl (fun report id => report.insert id (.onCycle members)) report)
    ∅

/-- Marks the callers that are not yet marked, and lists them. -/
def markCallers (callee : CallableId) :
    List CallableId → CycleReport → CycleReport × List CallableId
  | [], report => (report, [])
  | caller :: rest, report =>
    if report.isUnsafe caller then markCallers callee rest report
    else
      let (marked, found) := markCallers callee rest (report.insert caller (.dependsOn callee))
      (marked, caller :: found)

/-- Works off a queue of unsafe callables, first in first out. Every callable
enters the queue at most once, which bounds the rounds. -/
def spread (callers : Table CallableId (List CallableId)) :
    Nat → List CallableId → CycleReport → CycleReport
  | 0, _, report => report
  | _, [], report => report
  | rounds + 1, callee :: queue, report =>
    let (marked, found) := markCallers callee ((callers.get? callee).getD []) report
    spread callers rounds (queue ++ found) marked

def detectCycles (graph : CallGraph) : CycleReport :=
  spread graph.callers graph.nodes.length graph.cyclic.keys graph.cyclic

end CallGraph

end MappingForms
