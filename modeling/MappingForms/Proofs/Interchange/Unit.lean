import MappingForms.Interchange.Unit
import MappingForms.Proofs.Interchange.Expression
import MappingForms.Proofs.Json.Text

/-!
Contract: compilation units are read back from what is written for them.

Owns: the round trip of methods, scopes and units, as values and as texts, and the levels that the
bodies of methods take.

Everything about a unit but the bodies of its methods nests within a few levels. A unit can
therefore be read back exactly if each of the bodies can, and a body stands inside of six arrays
and objects.
-/

set_option autoImplicit false

namespace MappingForms

open Json (Plain Reading bind_eq_some_of fields?_record)
open Json.Numeral (IsDecimal)
open Json.Fields (required_of withDefault_of nullable_of)

theorem Parameter.ofJson?_toJson (levels : Nat) (parameter : Parameter) :
    ofJson? (.direct (levels + 2)) parameter.toJson = some parameter :=
  bind_eq_some_of rfl <|
  bind_eq_some_of (fields?_record rfl (by decide)) <|
  bind_eq_some_of (required_of rfl rfl) <|
  bind_eq_some_of (required_of rfl (TypeRef.ofJson?_toJson rfl parameter.type)) rfl

theorem Parameter.depth_toJson (parameter : Parameter) : parameter.toJson.depth = 2 := rfl

theorem Parameter.plain_toJson (parameter : Parameter) : parameter.toJson.Plain IsDecimal :=
  .record (by simp [Plain.text, TypeRef.plain_toJson])

namespace MethodBody

/-- A body is read back if its expression nests within the levels that are left. -/
theorem ofJson?_toJson {levels : Nat} {body : MethodBody}
    (within : ∀ expr ∈ body.expression?, expr.toJson.depth ≤ levels)
    (survives : ∀ expr ∈ body.expression?, ∀ number ∈ expr.floats, number.SurvivesWriting) :
    ofJson? (.direct (levels + 1)) body.toJson = some body := by
  cases body with
  | statements => rfl
  | expression expr =>
    have back : Expr.ofJson? (.direct levels) expr.toJson = some expr :=
      Expr.ofJson?_toJson (within expr rfl) (survives expr rfl)
    exact congrArg (Option.map expression) back

/-- A body nests one level deeper than its expression. -/
theorem depth_toJson_le_iff {levels : Nat} {body : MethodBody} :
    body.toJson.depth ≤ levels + 1 ↔ ∀ expr ∈ body.expression?, expr.toJson.depth ≤ levels := by
  cases body with
  | statements => exact iff_of_true (Nat.zero_le _) nofun
  | expression expr =>
    rw [toJson, Json.depth_record_le_iff, List.forall_mem_singleton]
    exact ⟨fun within _ same => Option.some.inj same ▸ within, fun within => within expr rfl⟩

private theorem depth_le_of_ofJson? {levels : Nat} {json : Json} {body : MethodBody}
    (decoded : ofJson? (.direct levels) json = some body) :
    ∀ expr ∈ body.expression?, expr.toJson.depth + 1 ≤ levels := by
  obtain ⟨⟨name, content⟩, -, chosen⟩ := Option.bind_eq_some_iff.1 decoded
  dsimp only at chosen
  split at chosen
  next =>
    split at chosen
    · obtain rfl := Option.some.inj chosen
      nofun
    · cases chosen
  next content =>
    cases levels with
    | zero => cases chosen
    | succ inner =>
      obtain ⟨expr, exprDecoded, rfl⟩ := Option.map_eq_some_iff.1 chosen
      intro body same
      obtain rfl := Option.some.inj same
      exact Nat.succ_le_succ (Expr.depth_toJson_le_of_ofJson? exprDecoded)
  next => cases chosen

theorem plain_toJson (body : MethodBody) : body.toJson.Plain IsDecimal := by
  cases body with
  | statements => exact .text _
  | expression expr =>
    have exprPlain : expr.toJson.Plain IsDecimal :=
      Expr.plain_toJson (fun _ => trivial) fun number _ => Json.Numeral.isDecimal_ofBinary64 number
    exact .record (List.forall_mem_singleton.2 exprPlain)

end MethodBody

namespace Method

/-- A method is read back if its body is. Its expression has two levels around it inside of the
method. -/
theorem ofJson?_toJson {levels : Nat} {method : Method}
    (within : ∀ expr ∈ method.body.expression?, expr.toJson.depth ≤ levels + 2)
    (survives : ∀ expr ∈ method.body.expression?, ∀ number ∈ expr.floats,
      number.SurvivesWriting) :
    ofJson? (.direct (levels + 4)) method.toJson = some method :=
  bind_eq_some_of rfl <|
  bind_eq_some_of (fields?_record rfl (by decide)) <|
  bind_eq_some_of (required_of rfl rfl) <|
  bind_eq_some_of (withDefault_of rfl
    (Json.list?_list rfl fun parameter _ => Parameter.ofJson?_toJson levels parameter)) <|
  bind_eq_some_of (required_of rfl (TypeRef.ofJson?_toJson rfl method.returnType)) <|
  bind_eq_some_of (required_of rfl (MethodBody.ofJson?_toJson within survives)) <|
  bind_eq_some_of (nullable_of rfl fun marker _ =>
    ⟨Json.record_ne_null _, Marker.ofJson?_toJson rfl marker⟩) <|
  bind_eq_some_of (withDefault_of rfl (Span.ofJson?_toJson rfl method.span)) rfl

/-- Whether a method nests within four levels or more depends on its expression, which has two
levels around it. -/
theorem depth_toJson_le_iff {levels : Nat} {method : Method} :
    method.toJson.depth ≤ levels + 4 ↔
      ∀ expr ∈ method.body.expression?, expr.toJson.depth ≤ levels + 2 := by
  have parametersWithin : (Json.list Parameter.toJson method.parameters).depth ≤ levels + 3 :=
    Json.depth_list_le_iff.2 fun parameter _ => by
      rw [Parameter.depth_toJson]
      omega
  have markerWithin : (Json.nullable Marker.toJson method.marker).depth ≤ levels + 3 := by
    cases method.marker with
    | none => exact Nat.zero_le _
    | some marker =>
      rw [Json.nullable, Marker.depth_toJson]
      omega
  rw [toJson, Json.depth_record_le_iff, ← MethodBody.depth_toJson_le_iff]
  simp only [List.forall_mem_cons, parametersWithin, markerWithin, Span.depth_toJson,
    TypeRef.depth_toJson]
  constructor
  · exact fun within => within.2.2.2.1
  · exact fun within =>
      ⟨Nat.zero_le _, trivial, by omega, within, trivial, by omega, List.forall_mem_nil _⟩

private theorem depth_le_of_ofJson? {levels : Nat} {json : Json} {method : Method}
    (decoded : ofJson? (.direct levels) json = some method) :
    ∀ expr ∈ method.body.expression?, expr.toJson.depth + 2 ≤ levels := by
  cases levels with
  | zero => cases decoded
  | succ inner =>
    simp only [ofJson?, Reading.enter, Option.bind_eq_bind, Option.bind_some,
      Option.bind_eq_some_iff, Option.pure_def, Option.some.injEq] at decoded
    obtain ⟨fields, -, name, -, parameters, -, returnType, -, body, bodyTaken, marker, -, span, -,
      rfl⟩ := decoded
    obtain ⟨content, -, bodyDecoded⟩ := Json.Fields.required_eq_some bodyTaken
    intro expr isBody
    have below := MethodBody.depth_le_of_ofJson? bodyDecoded expr isBody
    omega

theorem plain_toJson (method : Method) : method.toJson.Plain IsDecimal := by
  have parametersPlain : (Json.list Parameter.toJson method.parameters).Plain IsDecimal :=
    .list fun parameter _ => parameter.plain_toJson
  have markerPlain : (Json.nullable Marker.toJson method.marker).Plain IsDecimal :=
    .nullable fun marker _ => marker.plain_toJson
  have spanPlain : method.span.toJson.Plain IsDecimal :=
    Span.plain_toJson (fun _ => trivial) method.span
  exact .record (by simp [Plain.text, parametersPlain, TypeRef.plain_toJson,
    MethodBody.plain_toJson, markerPlain, spanPlain])

end Method

namespace Scope

def bodies (scope : Scope) : List Expr :=
  scope.methods.filterMap fun method => method.body.expression?

private theorem mem_bodies {scope : Scope} {method : Method} (listed : method ∈ scope.methods)
    {expr : Expr} (isBody : expr ∈ method.body.expression?) : expr ∈ scope.bodies :=
  List.mem_filterMap.2 ⟨method, listed, isBody⟩

/-- A scope is read back if the bodies of its methods are. -/
theorem ofJson?_toJson {levels : Nat} {scope : Scope}
    (within : ∀ expr ∈ scope.bodies, expr.toJson.depth ≤ levels + 2)
    (survives : ∀ expr ∈ scope.bodies, ∀ number ∈ expr.floats, number.SurvivesWriting) :
    ofJson? (.direct (levels + 6)) scope.toJson = some scope := by
  have methodsBack : Json.list? Method.ofJson? (.direct (levels + 5))
      (.list Method.toJson scope.methods) = some scope.methods :=
    Json.list?_list rfl fun method listed => Method.ofJson?_toJson
      (fun expr isBody => within expr (mem_bodies listed isBody))
      fun expr isBody => survives expr (mem_bodies listed isBody)
  exact bind_eq_some_of rfl <|
    bind_eq_some_of (fields?_record rfl (by decide)) <|
    bind_eq_some_of (nullable_of rfl fun name _ => ⟨Json.text_ne_null name, rfl⟩) <|
    bind_eq_some_of (required_of rfl rfl) <|
    bind_eq_some_of (withDefault_of rfl rfl) <|
    bind_eq_some_of (nullable_of rfl fun marker _ =>
      ⟨Json.record_ne_null _, Marker.ofJson?_toJson rfl marker⟩) <|
    bind_eq_some_of (withDefault_of rfl methodsBack) <|
    bind_eq_some_of (withDefault_of rfl (Span.ofJson?_toJson rfl scope.span)) rfl

theorem depth_toJson_le_iff {levels : Nat} {scope : Scope} :
    scope.toJson.depth ≤ levels + 6 ↔ ∀ expr ∈ scope.bodies, expr.toJson.depth ≤ levels + 2 := by
  have methodsIff : (Json.list Method.toJson scope.methods).depth ≤ levels + 5 ↔
      ∀ expr ∈ scope.bodies, expr.toJson.depth ≤ levels + 2 := by
    rw [Json.depth_list_le_iff]
    constructor
    · intro within expr listed
      obtain ⟨method, isMethod, isBody⟩ := List.mem_filterMap.1 listed
      exact Method.depth_toJson_le_iff.1 (within method isMethod) expr isBody
    · intro within method listed
      exact Method.depth_toJson_le_iff.2 fun expr isBody => within expr (mem_bodies listed isBody)
  have namespaceWithin : (Json.nullable Json.text scope.namespaceName).depth ≤ levels + 5 := by
    cases scope.namespaceName <;> exact Nat.zero_le _
  have markerWithin : (Json.nullable Marker.toJson scope.marker).depth ≤ levels + 5 := by
    cases scope.marker with
    | none => exact Nat.zero_le _
    | some marker =>
      rw [Json.nullable, Marker.depth_toJson]
      omega
  rw [toJson, Json.depth_record_le_iff, ← methodsIff]
  simp only [List.forall_mem_cons, namespaceWithin, markerWithin, Span.depth_toJson]
  constructor
  · exact fun within => within.2.2.2.2.1
  · exact fun within =>
      ⟨trivial, Nat.zero_le _, Nat.zero_le _, trivial, within, by omega, List.forall_mem_nil _⟩

private theorem depth_le_of_ofJson? {levels : Nat} {json : Json} {scope : Scope}
    (decoded : ofJson? (.direct levels) json = some scope) :
    ∀ expr ∈ scope.bodies, expr.toJson.depth + 4 ≤ levels := by
  cases levels with
  | zero => cases decoded
  | succ inner =>
    simp only [ofJson?, Reading.enter, Option.bind_eq_bind, Option.bind_some,
      Option.bind_eq_some_iff, Option.pure_def, Option.some.injEq] at decoded
    obtain ⟨fields, -, namespaceName, -, name, -, isStatic, -, marker, -, methods, methodsTaken,
      span, -, rfl⟩ := decoded
    intro expr listed
    obtain ⟨method, isMethod, isBody⟩ := List.mem_filterMap.1 listed
    rcases Json.Fields.withDefault_eq_some methodsTaken with rfl | ⟨content, -, listDecoded⟩
    · cases isMethod
    · obtain ⟨elements, innermost, -, entered, decoded⟩ := Json.list?_eq_some listDecoded
      obtain ⟨element, -, methodDecoded⟩ := decoded method isMethod
      cases inner with
      | zero => cases entered
      | succ inner =>
        obtain rfl := Option.some.inj entered
        have below := Method.depth_le_of_ofJson? methodDecoded expr isBody
        omega

theorem plain_toJson (scope : Scope) : scope.toJson.Plain IsDecimal := by
  have namespacePlain : (Json.nullable Json.text scope.namespaceName).Plain IsDecimal :=
    .nullable fun name _ => .text name
  have markerPlain : (Json.nullable Marker.toJson scope.marker).Plain IsDecimal :=
    .nullable fun marker _ => marker.plain_toJson
  have methodsPlain : (Json.list Method.toJson scope.methods).Plain IsDecimal :=
    .list fun method _ => method.plain_toJson
  have spanPlain : scope.span.toJson.Plain IsDecimal :=
    Span.plain_toJson (fun _ => trivial) scope.span
  exact .record (by simp [namespacePlain, Plain.text, Plain.bool, markerPlain, methodsPlain,
    spanPlain])

end Scope

namespace CompilationUnit

def bodies (unit : CompilationUnit) : List Expr := unit.scopes.flatMap Scope.bodies

def floats (unit : CompilationUnit) : List Binary64 := unit.bodies.flatMap Expr.floats

private theorem mem_bodies {unit : CompilationUnit} {scope : Scope} (listed : scope ∈ unit.scopes)
    {expr : Expr} (isBody : expr ∈ scope.bodies) : expr ∈ unit.bodies :=
  List.mem_flatMap.2 ⟨scope, listed, isBody⟩

/-- The bodies of a unit stand inside of six arrays and objects. -/
theorem depth_toJson_le_iff {levels : Nat} {unit : CompilationUnit} :
    unit.toJson.depth ≤ levels + 8 ↔ ∀ expr ∈ unit.bodies, expr.toJson.depth ≤ levels + 2 := by
  have scopesIff : (Json.list Scope.toJson unit.scopes).depth ≤ levels + 7 ↔
      ∀ expr ∈ unit.bodies, expr.toJson.depth ≤ levels + 2 := by
    rw [Json.depth_list_le_iff]
    constructor
    · intro within expr listed
      obtain ⟨scope, isScope, isBody⟩ := List.mem_flatMap.1 listed
      exact Scope.depth_toJson_le_iff.1 (within scope isScope) expr isBody
    · intro within scope listed
      exact Scope.depth_toJson_le_iff.2 fun expr isBody => within expr (mem_bodies listed isBody)
  rw [toJson, Json.depth_record_le_iff, ← scopesIff]
  simp only [List.forall_mem_cons]
  constructor
  · exact fun within => within.2.1
  · exact fun within => ⟨Nat.zero_le _, within, List.forall_mem_nil _⟩

/-- A unit is read back if it nests within the limit and its floats survive. -/
theorem ofJson?_toJson {unit : CompilationUnit} (within : unit.toJson.depth ≤ Json.depthLimit)
    (survives : ∀ number ∈ unit.floats, number.SurvivesWriting) :
    ofJson? .whole unit.toJson = some unit := by
  have bodiesWithin : ∀ expr ∈ unit.bodies, expr.toJson.depth ≤ 119 + 2 :=
    depth_toJson_le_iff.1 within
  have bodiesSurvive : ∀ expr ∈ unit.bodies, ∀ number ∈ expr.floats, number.SurvivesWriting :=
    fun expr listed number isFloat => survives number (List.mem_flatMap.2 ⟨expr, listed, isFloat⟩)
  have scopesBack : Json.list? Scope.ofJson? (.direct 126) (.list Scope.toJson unit.scopes) =
      some unit.scopes :=
    Json.list?_list rfl fun scope listed => Scope.ofJson?_toJson
      (fun expr isBody => bodiesWithin expr (mem_bodies listed isBody))
      fun expr isBody => bodiesSurvive expr (mem_bodies listed isBody)
  exact bind_eq_some_of rfl <|
    bind_eq_some_of (fields?_record rfl (by decide)) <|
    bind_eq_some_of (withDefault_of rfl (NullableContext.ofJson?_toJson _ unit.nullable)) <|
    bind_eq_some_of (withDefault_of rfl scopesBack) rfl

/-- A unit that was accepted in any form is written within the limit. -/
theorem depth_le_of_ofJson? {json : Json} {unit : CompilationUnit}
    (decoded : ofJson? .whole json = some unit) : unit.toJson.depth ≤ Json.depthLimit := by
  refine (depth_toJson_le_iff : unit.toJson.depth ≤ 119 + 8 ↔ _).2 fun expr listed => ?_
  simp only [ofJson?, Reading.whole, Json.depthLimit, Reading.enter, Option.bind_eq_bind,
    Option.bind_some, Option.bind_eq_some_iff, Option.pure_def, Option.some.injEq] at decoded
  obtain ⟨fields, -, context, -, scopes, scopesTaken, rfl⟩ := decoded
  obtain ⟨scope, isScope, isBody⟩ := List.mem_flatMap.1 listed
  rcases Json.Fields.withDefault_eq_some scopesTaken with rfl | ⟨content, -, listDecoded⟩
  · cases isScope
  · obtain ⟨elements, inner, -, entered, decoded⟩ := Json.list?_eq_some listDecoded
    obtain rfl := Option.some.inj entered
    obtain ⟨element, -, scopeDecoded⟩ := decoded scope isScope
    -- The unit and its list of scopes have taken two of the levels.
    have below : expr.toJson.depth + 4 ≤ 125 :=
      Scope.depth_le_of_ofJson? scopeDecoded expr isBody
    omega

theorem plain_toJson (unit : CompilationUnit) : unit.toJson.Plain IsDecimal := by
  have scopesPlain : (Json.list Scope.toJson unit.scopes).Plain IsDecimal :=
    .list fun scope _ => scope.plain_toJson
  exact .record (by simp [NullableContext.toJson, Plain.text, scopesPlain])

/-- Reading the text of a unit amounts to reading the value that is written for it. -/
theorem parse?_compact (unit : CompilationUnit) :
    parse? unit.toJson.compact = ofJson? .whole unit.toJson := by
  rw [parse?, unit.plain_toJson.parse?_compact, Option.bind_some]

/-- A unit whose floats survive writing is read back from its written form exactly if that form
nests within the limit. This is so for every such unit that was read before, however its fields were
laid out then. -/
theorem reading_undoes_writing (unit : CompilationUnit)
    (survives : ∀ number ∈ unit.floats, number.SurvivesWriting) :
    (ofJson? .whole unit.toJson = some unit ↔ unit.toJson.depth ≤ 127) ∧
    (parse? unit.toJson.compact = some unit ↔ unit.toJson.depth ≤ 127) ∧
    (∀ json, ofJson? .whole json = some unit → ofJson? .whole unit.toJson = some unit) ∧
    (∀ text, parse? text = some unit → parse? unit.toJson.compact = some unit) := by
  have valueBack : ofJson? .whole unit.toJson = some unit ↔ unit.toJson.depth ≤ 127 :=
    ⟨depth_le_of_ofJson?, fun within => ofJson?_toJson within survives⟩
  have againBack : ∀ json, ofJson? .whole json = some unit →
      ofJson? .whole unit.toJson = some unit :=
    fun _ decoded => ofJson?_toJson (depth_le_of_ofJson? decoded) survives
  rw [parse?_compact]
  refine ⟨valueBack, valueBack, againBack, fun text parsed => ?_⟩
  obtain ⟨json, -, decoded⟩ := Option.bind_eq_some_iff.1 parsed
  exact againBack json decoded

end CompilationUnit

namespace PricedLines

def line : TypeRef := { name := "Line", shape := .reference, nullable := true }

def lines : TypeRef := { name := "List<Line>", shape := .collection, constructible := false }

def double : TypeRef := .value "double"

def prices : TypeRef := .collection "List<double>"

/-- `lines.Select(x => x?.Price ?? 1.5).ToList()` -/
def body : Expr :=
  .projection (.parameter "lines" lines) "x"
    (.coalesce (.member (.parameter "x" line) "Price" true double)
      (.literal (.float ⟨0x3FF8000000000000⟩) double) double)
    (some "ToList") prices

def unit : CompilationUnit where
  nullable := .enabled
  scopes := [{
    namespaceName := some "Shop"
    name := "Maps"
    isStatic := true
    methods := [{
      name := "Prices"
      parameters := [⟨"lines", lines⟩]
      returnType := prices
      body := .expression body
      marker := some { update := some false }
      span := ⟨120, 4294967295⟩ }] }]

/-- The unit is read back from its text, with its float and its missing settings. -/
theorem prices_read_back :
    (∀ number ∈ unit.floats, number.SurvivesWriting) ∧
    CompilationUnit.parse? unit.toJson.compact = some unit := by
  have survives : ∀ number ∈ unit.floats, number.SurvivesWriting := by decide +kernel
  have within : unit.toJson.depth ≤ 127 := by decide
  exact ⟨survives, (CompilationUnit.reading_undoes_writing unit survives).2.1.2 within⟩

end PricedLines

end MappingForms
