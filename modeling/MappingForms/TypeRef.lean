/-!
Contract: references to the types that mapping methods mention.

Owns: the nullable context, the coarse shape of a type, whether a value of a
type can be null, the lifted type of an optional result, and the spelling of a
type in generated source.
-/

set_option autoImplicit false

namespace MappingForms

/-- Whether nullability annotations are in force in a compilation unit. -/
inductive NullableContext where
  | disabled
  | enabled
deriving DecidableEq, Inhabited

namespace NullableContext

def isEnabled : NullableContext → Bool
  | disabled => false
  | enabled => true

end NullableContext

inductive TypeShape where
  | value
  | reference
  | string
  | collection
deriving DecidableEq

/-- A type as it is named in a declaration. -/
structure TypeRef where
  name : String
  shape : TypeShape
  nullable : Bool := false
  /-- Whether the type has a constructor without arguments. -/
  constructible : Bool := true
deriving DecidableEq

namespace TypeRef

def value (name : String) : TypeRef := { name, shape := .value }

def reference (name : String) : TypeRef := { name, shape := .reference }

def string : TypeRef := { name := "string", shape := .string }

def collection (name : String) : TypeRef := { name, shape := .collection }

def boolean : TypeRef := value "bool"

def isValue (type : TypeRef) : Bool := type.shape == .value

/-- A value type is nullable only by annotation. Any other type is nullable by
annotation, and also whenever annotations are not in force. -/
def canBeNull (type : TypeRef) (context : NullableContext) : Bool :=
  match type.shape with
  | .value => type.nullable
  | .reference | .string | .collection => type.nullable || !context.isEnabled

/-- The type of an access that may yield null instead. Reference types carry an
annotation only where annotations are in force. -/
def lifted (type : TypeRef) (context : NullableContext) : TypeRef :=
  if type.isValue || context.isEnabled then { type with nullable := true } else type

/-- The type as it is written in generated source. -/
def display (type : TypeRef) (context : NullableContext) : String :=
  let annotated := match type.shape with
    | .value => type.nullable
    | .reference | .string | .collection => type.nullable && context.isEnabled
  if annotated then type.name ++ "?" else type.name

end TypeRef

end MappingForms
