import MappingForms.CompilationUnit
import MappingForms.Interchange.Expression
import MappingForms.Json.Reader

/-!
Contract: the JSON form of compilation units.

Owns: what is written and what is accepted for methods, scopes and units, and the
reading of a unit from a text.
-/

set_option autoImplicit false

namespace MappingForms

namespace Parameter

def toJson (parameter : Parameter) : Json :=
  .record [("name", .text parameter.name), ("ty", parameter.type.toJson)]

def ofJson? (reading : Json.Reading) (json : Json) : Option Parameter := do
  let inner ← reading.enter
  let fields ← json.fields? ["name", "ty"]
  return {
    name := ← fields.required "name" Json.text?
    type := ← fields.required "ty" (TypeRef.ofJson? inner) }

end Parameter

namespace MethodBody

def toJson : MethodBody → Json
  | statements => .text "statements"
  | expression value => .record [("expression", value.toJson)]

def ofJson? (reading : Json.Reading) (json : Json) : Option MethodBody := do
  let (name, content) ← json.choice? reading
  match name, content with
  | "statements", content => if Json.isBare reading content then some statements else none
  | "expression", some content =>
    let inner ← reading.enter
    (Expr.ofJson? inner content).map expression
  | _, _ => none

end MethodBody

namespace Method

def toJson (method : Method) : Json :=
  .record
    [("name", .text method.name),
      ("parameters", .list Parameter.toJson method.parameters),
      ("return_type", method.returnType.toJson),
      ("body", method.body.toJson),
      ("marker", .nullable Marker.toJson method.marker),
      ("span", method.span.toJson)]

def ofJson? (reading : Json.Reading) (json : Json) : Option Method := do
  let inner ← reading.enter
  let fields ← json.fields? ["name", "parameters", "return_type", "body", "marker", "span"]
  return {
    name := ← fields.required "name" Json.text?
    parameters := ← fields.withDefault "parameters" [] (Json.list? Parameter.ofJson? inner)
    returnType := ← fields.required "return_type" (TypeRef.ofJson? inner)
    body := ← fields.required "body" (MethodBody.ofJson? inner)
    marker := ← fields.nullable "marker" (Marker.ofJson? inner)
    span := ← fields.withDefault "span" {} (Span.ofJson? inner) }

end Method

namespace Scope

def toJson (scope : Scope) : Json :=
  .record
    [("namespace", .nullable .text scope.namespaceName),
      ("name", .text scope.name),
      ("is_static", .bool scope.isStatic),
      ("marker", .nullable Marker.toJson scope.marker),
      ("methods", .list Method.toJson scope.methods),
      ("span", scope.span.toJson)]

def ofJson? (reading : Json.Reading) (json : Json) : Option Scope := do
  let inner ← reading.enter
  let fields ← json.fields? ["namespace", "name", "is_static", "marker", "methods", "span"]
  return {
    namespaceName := ← fields.nullable "namespace" Json.text?
    name := ← fields.required "name" Json.text?
    isStatic := ← fields.withDefault "is_static" false Json.bool?
    marker := ← fields.nullable "marker" (Marker.ofJson? inner)
    methods := ← fields.withDefault "methods" [] (Json.list? Method.ofJson? inner)
    span := ← fields.withDefault "span" {} (Span.ofJson? inner) }

end Scope

namespace CompilationUnit

def toJson (unit : CompilationUnit) : Json :=
  .record
    [("nullable", unit.nullable.toJson),
      ("scopes", .list Scope.toJson unit.scopes)]

def ofJson? (reading : Json.Reading) (json : Json) : Option CompilationUnit := do
  let inner ← reading.enter
  let fields ← json.fields? ["nullable", "scopes"]
  return {
    nullable := ← fields.withDefault "nullable" .disabled (NullableContext.ofJson? inner)
    scopes := ← fields.withDefault "scopes" [] (Json.list? Scope.ofJson? inner) }

def parse? (text : String) : Option CompilationUnit :=
  (Json.parse? text).bind (ofJson? .whole)

end CompilationUnit

end MappingForms
