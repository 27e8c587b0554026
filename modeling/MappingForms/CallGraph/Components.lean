import MappingForms.CallGraph

/-!
Contract: the strongly connected components of a call graph.

Owns: the depth-first walk with its explicit stack of frames, one step of it,
and the components in the order in which the walk completes them, which puts
callees before callers.

Every node gets an index when it is entered. A frame keeps the least index that
its node has been found to reach among the nodes that belong to no finished
component. A node that reaches no lower index than its own closes a component.
-/

set_option autoImplicit false

namespace MappingForms

namespace CallGraph

/-- A node whose callees are being visited. -/
structure Frame where
  node : CallableId
  index : Nat
  /-- The least index reached so far. -/
  low : Nat
  /-- The callees that are still to be looked at. -/
  pending : List CallableId

structure Walk where
  /-- The nodes entered so far, latest first, with their indices. -/
  entered : List (CallableId × Nat) := []
  /-- The entered nodes that belong to no finished component, latest first. -/
  stack : List CallableId := []
  /-- The path from the root of the walk, innermost first. -/
  frames : List Frame := []
  /-- The finished components, earliest first. -/
  components : List (List CallableId) := []

namespace Walk

/-- Enters a node that has no index yet. -/
def enter (graph : CallGraph) (walk : Walk) (node : CallableId) : Walk :=
  let index := walk.entered.length
  { walk with
    entered := (node, index) :: walk.entered
    stack := node :: walk.stack
    frames := { node, index, low := index, pending := graph.callees node } :: walk.frames }

/-- The part of the stack down to a node, and what lies below it. -/
def splitStack (node : CallableId) : List CallableId → List CallableId × List CallableId
  | [] => ([], [])
  | top :: rest =>
    if top = node then ([top], rest)
    else
      let (above, below) := splitStack node rest
      (top :: above, below)

/-- Leaves a node whose callees have all been looked at. Its parent inherits what
it reaches, and a node that reaches nothing lower closes a component. -/
def leave (walk : Walk) (frame : Frame) (frames : List Frame) : Walk :=
  let inherited := match frames with
    | [] => []
    | parent :: rest => { parent with low := min parent.low frame.low } :: rest
  if frame.low = frame.index then
    let (component, below) := splitStack frame.node walk.stack
    { walk with
      frames := inherited
      stack := below
      components := walk.components ++ [component] }
  else
    { walk with frames := inherited }

/-- One step: looks at the next callee of the innermost frame, or leaves it. -/
def step (graph : CallGraph) (walk : Walk) : Walk :=
  match walk.frames with
  | [] => walk
  | frame :: frames =>
    match frame.pending with
    | [] => walk.leave frame frames
    | callee :: pending =>
      match walk.entered.lookup callee with
      | none =>
        { walk with frames := { frame with pending } :: frames }.enter graph callee
      | some index =>
        let low := if walk.stack.contains callee then min frame.low index else frame.low
        { walk with frames := { frame with pending, low } :: frames }

/-- At most the given number of steps, until no frame is left. -/
def run (graph : CallGraph) : Nat → Walk → Walk
  | 0, walk => walk
  | bound + 1, walk => if walk.frames.isEmpty then walk else run graph bound (walk.step graph)

/-- Walks from one root, unless it was entered before. -/
def visit (graph : CallGraph) (bound : Nat) (walk : Walk) (root : CallableId) : Walk :=
  if (walk.entered.lookup root).isSome then walk else run graph bound (walk.enter graph root)

end Walk

/-- A bound on the steps of a walk: every node is left once and every call is
looked at once. -/
def walkBound (graph : CallGraph) : Nat := graph.nodes.length + 2 * graph.edgeCount + 1

/-- The strongly connected components, callees before callers. -/
def components (graph : CallGraph) : List (List CallableId) :=
  (graph.nodes.foldl (Walk.visit graph graph.walkBound) {}).components

end CallGraph

end MappingForms
