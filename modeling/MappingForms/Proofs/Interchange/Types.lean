import MappingForms.Interchange.Types
import MappingForms.Proofs.Json.Decoding

/-!
Contract: types, callable ids, spans and markers are read back from what is written for them.

Owns: for each of them the round trip, at every place that has levels enough, and the depth of its
written form.
-/

set_option autoImplicit false

namespace MappingForms

open Json (Plain Reading bind_eq_some_of fields?_record)
open Json.Fields (required_of withDefault_of nullable_of)

variable {reading inner : Reading} {condition : Json.Numeral → Prop}

theorem NullableContext.ofJson?_toJson (reading : Reading) (context : NullableContext) :
    ofJson? reading context.toJson = some context :=
  Json.variant?_text reading (by cases context <;> rfl)

theorem TypeShape.ofJson?_toJson (reading : Reading) (shape : TypeShape) :
    ofJson? reading shape.toJson = some shape :=
  Json.variant?_text reading (by cases shape <;> rfl)

theorem LinkPolicy.ofJson?_toJson (reading : Reading) (policy : LinkPolicy) :
    ofJson? reading policy.toJson = some policy :=
  Json.variant?_text reading (by cases policy <;> rfl)

theorem CollectionPolicy.ofJson?_toJson (reading : Reading) (policy : CollectionPolicy) :
    ofJson? reading policy.toJson = some policy :=
  Json.variant?_text reading (by cases policy <;> rfl)

namespace TypeRef

/-- A type is read back wherever an object may open. -/
theorem ofJson?_toJson (entered : reading.enter = some inner) (type : TypeRef) :
    ofJson? reading type.toJson = some type :=
  bind_eq_some_of entered <|
  bind_eq_some_of (fields?_record rfl (by decide)) <|
  bind_eq_some_of (required_of rfl rfl) <|
  bind_eq_some_of (required_of rfl (TypeShape.ofJson?_toJson inner type.shape)) <|
  bind_eq_some_of (withDefault_of rfl rfl) <|
  bind_eq_some_of (withDefault_of rfl rfl) rfl

theorem depth_toJson (type : TypeRef) : type.toJson.depth = 1 := rfl

theorem plain_toJson (type : TypeRef) : type.toJson.Plain condition :=
  .record (by simp [TypeShape.toJson, Plain.text, Plain.bool])

/-- A type is found in an array or an object, and is written as one. -/
theorem shallow_ofJson? (reading : Reading) : Json.Shallow (ofJson? reading) toJson := by
  intro json type decoded
  obtain ⟨_, -, afterEnter⟩ := Option.bind_eq_some_iff.1 decoded
  obtain ⟨fields, taken, -⟩ := Option.bind_eq_some_iff.1 afterEnter
  exact Json.depth_pos_of_fields? taken

end TypeRef

namespace CallableId

theorem ofJson?_toJson (entered : reading.enter = some inner) (id : CallableId) :
    ofJson? reading id.toJson = some id :=
  bind_eq_some_of entered <|
  bind_eq_some_of (fields?_record rfl (by decide)) <|
  bind_eq_some_of (required_of rfl rfl) <|
  bind_eq_some_of (required_of rfl rfl) <|
  bind_eq_some_of (required_of rfl rfl) rfl

theorem plain_toJson (id : CallableId) : id.toJson.Plain condition :=
  .record (by simp [Plain.text])

end CallableId

namespace Span

private theorem offset?_nat (offset : UInt32) : offset? (.nat offset.toNat) = some offset := by
  have inRange : 0 ≤ (offset.toNat : Int) ∧ (offset.toNat : Int) < UInt32.size := by
    have below := offset.toNat_lt_size
    omega
  rw [offset?, Json.natBelow?, Json.nat, Json.int?, Json.Numeral.ofNat, Json.Numeral.toInt?,
    Option.bind_some, if_pos inRange, Option.map_some, Int.toNat_natCast]
  exact congrArg some UInt32.ofNat_toNat

theorem ofJson?_toJson (entered : reading.enter = some inner) (span : Span) :
    ofJson? reading span.toJson = some span :=
  bind_eq_some_of entered <|
  bind_eq_some_of (fields?_record rfl (by decide)) <|
  bind_eq_some_of (required_of rfl (offset?_nat span.start)) <|
  bind_eq_some_of (required_of rfl (offset?_nat span.stop)) rfl

theorem depth_toJson (span : Span) : span.toJson.depth = 1 := rfl

theorem plain_toJson (naturals : ∀ value, condition (.ofNat value)) (span : Span) :
    span.toJson.Plain condition :=
  .record (by simp [Json.nat, Plain.number, naturals])

end Span

namespace Marker

/-- A marker is read back, with what it leaves unset. -/
theorem ofJson?_toJson (entered : reading.enter = some inner) (marker : Marker) :
    ofJson? reading marker.toJson = some marker := by
  have boolBack (value : Bool) : Json.bool value ≠ .null ∧ (Json.bool value).bool? = some value :=
    ⟨nofun, rfl⟩
  exact bind_eq_some_of entered <|
    bind_eq_some_of (fields?_record rfl (by decide)) <|
    bind_eq_some_of (nullable_of rfl fun value _ => boolBack value) <|
    bind_eq_some_of (nullable_of rfl fun value _ => boolBack value) <|
    bind_eq_some_of (nullable_of rfl fun policy _ =>
      ⟨Json.text_ne_null _, LinkPolicy.ofJson?_toJson inner policy⟩) <|
    bind_eq_some_of (nullable_of rfl fun policy _ =>
      ⟨Json.text_ne_null _, CollectionPolicy.ofJson?_toJson inner policy⟩) rfl

theorem depth_toJson (marker : Marker) : marker.toJson.depth = 1 := by
  obtain ⟨expression, update, links, collections⟩ := marker
  cases expression <;> cases update <;> cases links <;> cases collections <;> rfl

theorem plain_toJson (marker : Marker) : marker.toJson.Plain condition := by
  have boolPlain (value : Option Bool) : (Json.nullable .bool value).Plain condition :=
    .nullable fun content _ => .bool content
  have linksPlain : (Json.nullable LinkPolicy.toJson marker.links).Plain condition :=
    .nullable fun policy _ => .text policy.label
  have collectionsPlain :
      (Json.nullable CollectionPolicy.toJson marker.collections).Plain condition :=
    .nullable fun policy _ => .text policy.label
  exact .record (by simp [boolPlain, linksPlain, collectionsPlain])

end Marker

end MappingForms
