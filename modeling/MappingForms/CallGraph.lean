import MappingForms.Callables

/-!
Contract: which callables call which.

Owns: the graph, its construction from a table of callables or from a list of
edges, its callers and its size. Callees are listed in the order of first
calls, nodes in the order of identities.

Both constructions give a closed graph: every callee is a node.
-/

set_option autoImplicit false

namespace MappingForms

/-- The callees of every node. -/
structure CallGraph where
  edges : Table CallableId (List CallableId)

namespace CallGraph

def nodes (graph : CallGraph) : List CallableId := graph.edges.keys

/-- The callees of a node; an unknown node has none. -/
def callees (graph : CallGraph) (id : CallableId) : List CallableId :=
  (graph.edges.get? id).getD []

def edgeCount (graph : CallGraph) : Nat := graph.edges.values.flatten.length

def ofCallables (callables : Callables) : CallGraph :=
  ⟨callables.values.foldl
    (fun edges callable => edges.insert callable.id (callables.outgoingCalls callable.body)) ∅⟩

/-- Adds the calls of one caller. Callees become nodes as well. -/
def addCalls (graph : CallGraph) (caller : CallableId) (callees : List CallableId) : CallGraph :=
  let known := callees.foldl (fun edges callee => edges.insertIfNew callee []) graph.edges
  ⟨known.update caller [] (· ++ callees)⟩

/-- The graph of an adjacency list. A caller may be listed several times. -/
def ofEdges (edges : List (CallableId × List CallableId)) : CallGraph :=
  edges.foldl (fun graph entry => graph.addCalls entry.1 entry.2) ⟨∅⟩

/-- The callers of every node, each as often as it calls. -/
def callers (graph : CallGraph) : Table CallableId (List CallableId) :=
  graph.edges.entries.foldl
    (fun reverse entry =>
      entry.2.foldl (fun reverse callee => reverse.update callee [] (· ++ [entry.1]))
        (reverse.insertIfNew entry.1 []))
    ∅

end CallGraph

end MappingForms
