import MappingForms.Diagnostic
import MappingForms.Json.Decoding
import MappingForms.Marker

/-!
Contract: the JSON form of types, callable ids, spans and markers.

Owns: for each of them what is written and what is accepted.
-/

set_option autoImplicit false

namespace MappingForms

namespace NullableContext

def label : NullableContext → String
  | disabled => "disabled"
  | enabled => "enabled"

def toJson (context : NullableContext) : Json := .text context.label

def ofJson? : Json.Reading → Json → Option NullableContext :=
  Json.variant? [disabled, enabled] label

end NullableContext

namespace TypeShape

def label : TypeShape → String
  | value => "value"
  | reference => "reference"
  | string => "string"
  | collection => "collection"

def toJson (shape : TypeShape) : Json := .text shape.label

def ofJson? : Json.Reading → Json → Option TypeShape :=
  Json.variant? [value, reference, string, collection] label

end TypeShape

namespace TypeRef

def toJson (type : TypeRef) : Json :=
  .record
    [("name", .text type.name),
      ("shape", type.shape.toJson),
      ("nullable", .bool type.nullable),
      ("constructible", .bool type.constructible)]

def ofJson? (reading : Json.Reading) (json : Json) : Option TypeRef := do
  let inner ← reading.enter
  let fields ← json.fields? ["name", "shape", "nullable", "constructible"]
  return {
    name := ← fields.required "name" Json.text?
    shape := ← fields.required "shape" (TypeShape.ofJson? inner)
    nullable := ← fields.withDefault "nullable" false Json.bool?
    constructible := ← fields.withDefault "constructible" true Json.bool? }

end TypeRef

namespace CallableId

def toJson (id : CallableId) : Json :=
  .record
    [("scope", .text id.scope),
      ("name", .text id.name),
      ("signature", .text id.signature)]

def ofJson? (reading : Json.Reading) (json : Json) : Option CallableId := do
  let _ ← reading.enter
  let fields ← json.fields? ["scope", "name", "signature"]
  return {
    scope := ← fields.required "scope" Json.text?
    name := ← fields.required "name" Json.text?
    signature := ← fields.required "signature" Json.text? }

end CallableId

namespace Span

def toJson (span : Span) : Json :=
  .record [("start", .nat span.start.toNat), ("end", .nat span.stop.toNat)]

/-- An offset, which has 32 bits. -/
def offset? (json : Json) : Option UInt32 := (json.natBelow? UInt32.size).map Nat.toUInt32

def ofJson? (reading : Json.Reading) (json : Json) : Option Span := do
  let _ ← reading.enter
  let fields ← json.fields? ["start", "end"]
  return {
    start := ← fields.required "start" offset?
    stop := ← fields.required "end" offset? }

end Span

namespace LinkPolicy

def label : LinkPolicy → String
  | keep => "none"
  | ignore => "ignore"
  | expand => "rewrite"

def all : List LinkPolicy := [keep, ignore, expand]

def toJson (policy : LinkPolicy) : Json := .text policy.label

def ofJson? : Json.Reading → Json → Option LinkPolicy := Json.variant? all label

end LinkPolicy

namespace CollectionPolicy

def label : CollectionPolicy → String
  | generate => "generate"
  | skip => "skip"

def all : List CollectionPolicy := [generate, skip]

def toJson (policy : CollectionPolicy) : Json := .text policy.label

def ofJson? : Json.Reading → Json → Option CollectionPolicy := Json.variant? all label

end CollectionPolicy

namespace Marker

def toJson (marker : Marker) : Json :=
  .record
    [("expression", .nullable .bool marker.expression),
      ("update", .nullable .bool marker.update),
      ("optional_chain", .nullable LinkPolicy.toJson marker.links),
      ("collections", .nullable CollectionPolicy.toJson marker.collections)]

def ofJson? (reading : Json.Reading) (json : Json) : Option Marker := do
  let inner ← reading.enter
  let fields ← json.fields? ["expression", "update", "optional_chain", "collections"]
  return {
    expression := ← fields.nullable "expression" Json.bool?
    update := ← fields.nullable "update" Json.bool?
    links := ← fields.nullable "optional_chain" (LinkPolicy.ofJson? inner)
    collections := ← fields.nullable "collections" (CollectionPolicy.ofJson? inner) }

end Marker

end MappingForms
