import MappingForms.Artifact
import MappingForms.Inlining
import MappingForms.OptionalLinks

/-!
Contract: the generation of all forms of a compilation unit.

Owns: the options of a batch, the forms of one specification, the reassembly of the
results of all specifications, and the diagnostics in their order: discovery, then
cycles, then one specification after the other, then a fault.

A specification that fails is reported and does not touch the others.
-/

set_option autoImplicit false

namespace MappingForms

namespace Batch

def defaultFaultLimit : Nat := 200

structure Options where
  /-- How many workers to use; `none` leaves the choice to the host. -/
  parallelism : Option Nat := none
  /-- How many characters of a fault are reported. -/
  faultLimit : Nat := defaultFaultLimit
  /-- The settings below all markers. -/
  defaults : Marker := {}
  /-- Where faults are to be reported. -/
  reportUrl : Option String := none
deriving DecidableEq, Inhabited

namespace Options

/-- Asks for a number of workers, where zero leaves the choice to the host. -/
def withParallelism (options : Options) (workers : Nat) : Options :=
  { options with parallelism := if workers = 0 then none else some workers }

/-- The number of workers of a batch: as many as are asked for or else available, but no
more than there are specifications, and at least one. -/
def workerCount (options : Options) (available : Option Nat) (jobs : Nat) : Nat :=
  max (min ((options.parallelism.or available).getD 1) jobs) 1

end Options

structure Shared where
  callables : Callables
  cycles : CycleReport
  context : NullableContext

structure SpecOutput where
  artifacts : List Artifact := []
  diagnostics : List Diagnostic := []
deriving DecidableEq

namespace SpecOutput

def append (first second : SpecOutput) : SpecOutput where
  artifacts := first.artifacts ++ second.artifacts
  diagnostics := first.diagnostics ++ second.diagnostics

/-- A form that was generated, or the report that it was not. -/
def ofForm (spec : Specification) : Except FormError Artifact → SpecOutput
  | .ok artifact => { artifacts := [artifact] }
  | .error error =>
    { diagnostics :=
        [{ code := error.code, message := error.message, span := spec.span,
           spec := some spec.id }] }

end SpecOutput

/-- The body of a specification with calls expanded and optional links treated. -/
def transformed (shared : Shared) (spec : Specification) (body : Expr) : Expr :=
  let inliner : Inliner :=
    { callables := shared.callables, cycles := shared.cycles, policy := spec.options.links }
  (inliner.inline body).resolveLinks spec.options.links shared.context

def updateForm (spec : Specification) (body : Expr) (context : NullableContext) :
    Except FormError Artifact :=
  (UpdatePlan.ofBody spec body context).map fun plan => Artifact.ofPlan spec plan context

/-- The wanted forms of one specification. An unsafe specification has no update form. -/
def generateSpec (shared : Shared) (spec : Specification) : SpecOutput :=
  let body := transformed shared spec spec.body
  let expression :=
    if spec.options.expression then
      SpecOutput.ofForm spec (Artifact.ofExpression spec body shared.context)
    else
      {}
  let update :=
    if spec.options.update && !shared.cycles.isUnsafe spec.id then
      SpecOutput.ofForm spec (updateForm spec body shared.context)
    else
      {}
  expression.append update

private def cycleMessage (id : CallableId) : Unsafety → String
  | .onCycle members =>
    "'" ++ id.display ++ "' is part of a call cycle (" ++
      " -> ".intercalate (members.map (·.display)) ++
      "); calls on the cycle are not inlined and no update form is generated"
  | .dependsOn callee =>
    "'" ++ id.display ++ "' calls '" ++ callee.display ++
      "', which leads into a call cycle; that call is not inlined " ++
      "and no update form is generated"

def cycleWarning? (cycles : CycleReport) (spec : Specification) : Option Diagnostic :=
  (cycles.get? spec.id).map fun unsafety =>
    { code := .callCycle, message := cycleMessage spec.id unsafety, span := spec.span,
      spec := some spec.id }

/-- The result of a specification that a worker has finished with: its output, or the
text of the fault that stopped it. -/
abbrev Outcome := Except String SpecOutput

/-- Puts finished results back into declaration order, whatever the order in which they
came in. Outputs of faulting specifications are missing; the fault of the earliest of
them is reported. -/
def reassemble (finished : List (Nat × Outcome)) : List SpecOutput × Option String :=
  let ordered := finished.mergeSort fun left right => left.1 ≤ right.1
  let outcomes := ordered.map (·.2)
  (outcomes.filterMap fun outcome => match outcome with
      | .ok output => some output
      | .error _ => none,
    outcomes.findSome? fun outcome => match outcome with
      | .ok _ => none
      | .error fault => some fault)

structure Result where
  artifacts : List Artifact
  diagnostics : List Diagnostic
deriving DecidableEq

namespace Result

def hasErrors (result : Result) : Bool := MappingForms.hasErrors result.diagnostics

end Result

def faultDiagnostics (options : Options) : Option String → List Diagnostic
  | none => []
  | some fault => [.internalFault fault options.faultLimit options.reportUrl]

def generate (unit : CompilationUnit) (options : Options) : Result :=
  let discovery := unit.discover options.defaults
  let cycles := (CallGraph.ofCallables discovery.callables).detectCycles
  let shared : Shared := { callables := discovery.callables, cycles, context := unit.nullable }
  let finished := discovery.specs.zipIdx.map fun (spec, index) =>
    (index, (.ok (generateSpec shared spec) : Outcome))
  let (outputs, fault) := reassemble finished
  { artifacts := outputs.flatMap (·.artifacts)
    diagnostics := discovery.diagnostics ++ discovery.specs.filterMap (cycleWarning? cycles) ++
      outputs.flatMap (·.diagnostics) ++ faultDiagnostics options fault }

end Batch

end MappingForms
