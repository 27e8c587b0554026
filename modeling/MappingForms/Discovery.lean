import MappingForms.Callables
import MappingForms.Diagnostic

/-!
Contract: which methods of a unit are mapping specifications.

Owns: the specification, the walk over scopes and methods in declaration order,
and the problems of marked methods that cannot be specifications.

A method is asked for by its own marker, or by the marker of its scope if it
has one expression as its body and one parameter. Every method with an
expression body is a callable, whether it is asked for or not.
-/

set_option autoImplicit false

namespace MappingForms

/-- The class around a specification, as generated source repeats it. -/
structure ScopeInfo where
  namespaceName : Option String
  name : String
  isStatic : Bool
deriving DecidableEq

/-- A method from which forms are generated. -/
structure Specification where
  id : CallableId
  scope : ScopeInfo
  parameter : Parameter
  returnType : TypeRef
  body : Expr
  options : SpecOptions
  span : Span

inductive MethodProblem where
  | statementBody
  | parameterCount (found : Nat)
deriving DecidableEq

namespace MethodProblem

def code : MethodProblem → DiagnosticCode
  | statementBody => .unsupportedBody
  | parameterCount _ => .unsupportedSignature

def message (problem : MethodProblem) (id : CallableId) : String :=
  match problem with
  | statementBody =>
    "'" ++ id.display ++ "' is marked for generation but its body is not a single expression"
  | parameterCount found =>
    "'" ++ id.display ++ "' must take exactly one source parameter, found " ++ toString found

def hint : MethodProblem → Option String
  | statementBody => some "rewrite the method as `=> expression`"
  | parameterCount _ => none

def diagnostic (problem : MethodProblem) (id : CallableId) (span : Span) : Diagnostic where
  code := problem.code
  message := problem.message id
  span := span
  spec := some id
  hint := problem.hint

end MethodProblem

structure Discovery where
  /-- In declaration order. -/
  specs : List Specification := []
  callables : Callables := ∅
  /-- In declaration order. -/
  diagnostics : List Diagnostic := []

namespace Discovery

/-- What one method amounts to. -/
inductive Finding where
  | spec (spec : Specification)
  | problem (diagnostic : Diagnostic)
  | helper

/-- The marker that asks for a method, if any: its own, or an empty one when its
scope is marked and the method has the shape of a specification. -/
def requestedBy (scope : Scope) (method : Method) : Option Marker :=
  match method.marker, scope.marker with
  | some marker, _ => some marker
  | none, some _ =>
    if method.body.expression?.isSome && method.parameters.length == 1 then some {} else none
  | none, none => none

/-- Classifies one method. Settings come from the method, then its scope, then
the defaults of the batch. -/
def classify (defaults : Marker) (scope : Scope) (method : Method) : Finding :=
  let id := method.id scope.name
  match requestedBy scope method with
  | none => .helper
  | some marker =>
    match method.body, method.parameters with
    | .statements, _ => .problem (MethodProblem.statementBody.diagnostic id method.span)
    | .expression body, [parameter] =>
      .spec
        { id
          scope :=
            { namespaceName := scope.namespaceName
              name := scope.name
              isStatic := scope.isStatic }
          parameter
          returnType := method.returnType
          body
          options := .ofMarker (marker.layeredOn ((scope.marker.getD {}).layeredOn defaults))
          span := method.span }
    | .expression _, parameters =>
      .problem ((MethodProblem.parameterCount parameters.length).diagnostic id method.span)

def callable? (scope : Scope) (method : Method) : Option Callable :=
  method.body.expression?.map fun body =>
    { id := method.id scope.name, parameters := method.parameters, body }

def addMethod (defaults : Marker) (scope : Scope) (discovery : Discovery) (method : Method) :
    Discovery :=
  let known := match callable? scope method with
    | some callable => { discovery with callables := discovery.callables.add callable }
    | none => discovery
  match classify defaults scope method with
  | .spec spec => { known with specs := known.specs ++ [spec] }
  | .problem diagnostic => { known with diagnostics := known.diagnostics ++ [diagnostic] }
  | .helper => known

def addScope (defaults : Marker) (discovery : Discovery) (scope : Scope) : Discovery :=
  scope.methods.foldl (addMethod defaults scope) discovery

end Discovery

namespace CompilationUnit

/-- Finds the specifications and callables of a unit. The defaults lie below the
markers of scopes and methods. -/
def discover (unit : CompilationUnit) (defaults : Marker) : Discovery :=
  unit.scopes.foldl (Discovery.addScope defaults) {}

end CompilationUnit

end MappingForms
