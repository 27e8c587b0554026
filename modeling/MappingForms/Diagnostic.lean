import MappingForms.CallableId

/-!
Contract: what is reported to the host.

Owns: ranges of a source text, the stable codes with their severities, the diagnostic
with its one-line display and its place in the source, the diagnostic for an internal
fault, and the causes for which a wanted form is left out.

A code always has the same severity unless a severity is asked for explicitly. A range
whose end lies before its start counts as empty.
-/

set_option autoImplicit false

namespace MappingForms

/-- A half-open range of byte offsets. -/
structure Span where
  start : UInt32 := 0
  stop : UInt32 := 0
deriving DecidableEq, Inhabited

namespace Span

def length (span : Span) : Nat := span.stop.toNat - span.start.toNat

def isEmpty (span : Span) : Bool := span.start ≥ span.stop

end Span

inductive Severity where
  /-- A form could not be generated. -/
  | error
  /-- A form was left out or degraded. -/
  | warning
deriving DecidableEq

namespace Severity

def display : Severity → String
  | error => "error"
  | warning => "warning"

def labelText : Severity → String
  | error => "error here"
  | warning => "warning here"

end Severity

inductive DiagnosticCode where
  /-- A marked method has a statement body. -/
  | unsupportedBody
  /-- A marked method does not take exactly one parameter. -/
  | unsupportedSignature
  /-- An optional link is left in an expression form that keeps them. -/
  | optionalChainUnsupported
  /-- A specification lies on a call cycle or leads into one. -/
  | callCycle
  /-- An update form is wanted for a value type. -/
  | valueTypeUpdate
  /-- An update form is wanted for a construction that sets no member. -/
  | nothingToUpdate
  /-- An update form is wanted for a body that is no construction. -/
  | updateNeedsConstruction
  /-- Generation itself failed. -/
  | internalFault
deriving DecidableEq

namespace DiagnosticCode

/-- The code as users see it. -/
def display : DiagnosticCode → String
  | unsupportedBody => "MF0001"
  | unsupportedSignature => "MF0002"
  | optionalChainUnsupported => "MF0003"
  | callCycle => "MF0004"
  | valueTypeUpdate => "MF0005"
  | nothingToUpdate => "MF0006"
  | updateNeedsConstruction => "MF0007"
  | internalFault => "MF0999"

/-- The code as it is spelled in machine-readable reports. -/
def reportName : DiagnosticCode → String
  | unsupportedBody => "UnsupportedBody"
  | unsupportedSignature => "UnsupportedSignature"
  | optionalChainUnsupported => "OptionalChainUnsupported"
  | callCycle => "CallCycle"
  | valueTypeUpdate => "ValueTypeUpdate"
  | nothingToUpdate => "NothingToUpdate"
  | updateNeedsConstruction => "UpdateNeedsConstruction"
  | internalFault => "InternalFault"

def severity : DiagnosticCode → Severity
  | optionalChainUnsupported => .error
  | internalFault => .error
  | unsupportedBody => .warning
  | unsupportedSignature => .warning
  | callCycle => .warning
  | valueTypeUpdate => .warning
  | nothingToUpdate => .warning
  | updateNeedsConstruction => .warning

def all : List DiagnosticCode :=
  [unsupportedBody, unsupportedSignature, optionalChainUnsupported, callCycle,
    valueTypeUpdate, nothingToUpdate, updateNeedsConstruction, internalFault]

def ofDisplay? (text : String) : Option DiagnosticCode :=
  all.find? fun code => code.display == text

end DiagnosticCode

structure Label where
  text : String
  offset : Nat
  length : Nat
deriving DecidableEq

structure Diagnostic where
  code : DiagnosticCode
  message : String
  span : Span := {}
  severity : Severity := code.severity
  /-- The specification that the diagnostic is about. -/
  spec : Option CallableId := none
  /-- What to do about it, or where to report it. -/
  hint : Option String := none
deriving DecidableEq

namespace Diagnostic

private def faultHint : String :=
  "this is a bug in mapforge; please report it together with the compilation unit"

/-- The text of a fault on one line and cut to a limit. Dots mark a cut. -/
private def faultText (fault : String) (limit : Nat) : String :=
  let flat := fault.toList.map fun c => if c = '\r' ∨ c = '\n' then ' ' else c
  String.ofList (flat.take limit) ++ if flat.length > limit then "..." else ""

def internalFault (fault : String) (limit : Nat) (reportUrl : Option String) : Diagnostic where
  code := .internalFault
  message := "mapping generator faulted: " ++ faultText fault limit
  hint := some (reportUrl.getD faultHint)

/-- Severity, code and message on one line. -/
def display (diagnostic : Diagnostic) : String :=
  diagnostic.severity.display ++ "[" ++ diagnostic.code.display ++ "]: " ++ diagnostic.message

/-- The label of a diagnostic in a source. There is one if the span is not empty and
ends inside the source. -/
def label? (diagnostic : Diagnostic) (source : Option String) : Option Label :=
  source.bind fun source =>
    if !diagnostic.span.isEmpty && diagnostic.span.stop.toNat ≤ source.utf8ByteSize then
      some
        { text := diagnostic.severity.labelText
          offset := diagnostic.span.start.toNat
          length := diagnostic.span.length }
    else
      none

end Diagnostic

def hasErrors (diagnostics : List Diagnostic) : Bool :=
  diagnostics.any fun diagnostic => diagnostic.severity == .error

/-- The cause for which one form of a specification is left out. -/
inductive FormError where
  /-- The expression form would hold an optional link. -/
  | optionalLink (spec : CallableId)
  /-- The update form would write into a copy of a value. -/
  | valueType (spec : CallableId) (type : String)
  /-- The construction sets no member. -/
  | noInitializers (spec : CallableId)
  /-- The body is not an object construction. -/
  | notConstruction (spec : CallableId) (type : String)
deriving DecidableEq

namespace FormError

def code : FormError → DiagnosticCode
  | optionalLink _ => .optionalChainUnsupported
  | valueType _ _ => .valueTypeUpdate
  | noInitializers _ => .nothingToUpdate
  | notConstruction _ _ => .updateNeedsConstruction

def message : FormError → String
  | optionalLink spec =>
    "'" ++ spec.display ++ "' contains an optional chain (`?.`), which expression trees " ++
      "cannot represent; set the optional-chain policy to Ignore or Rewrite"
  | valueType spec type =>
    "'" ++ spec.display ++ "' returns value type '" ++ type ++
      "'; an update form needs a reference-type destination"
  | noInitializers spec =>
    "'" ++ spec.display ++ "' has no member initializers, so there is nothing to update"
  | notConstruction spec type =>
    "'" ++ spec.display ++ "' does not construct an object; an update form needs a `new " ++
      type ++ " \x7b ... \x7d` body"

end FormError

end MappingForms
