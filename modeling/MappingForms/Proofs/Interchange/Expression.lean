import MappingForms.Interchange.Expression
import MappingForms.Proofs.Expr.Children
import MappingForms.Proofs.Interchange.Types
import MappingForms.Proofs.Json.Numeral

/-!
Contract: expressions are read back from what is written for them.

Owns: the members that are written for an expression, the round trip of an expression whose floats
survive it, and the law that the written form of an expression nests no deeper than the value that
the expression was read from.

Reading checks an expression as a whole before it takes it apart, so the round trip needs the
written form to pass that check. All of its strings are texts and all of its numbers are in range,
which leaves its depth.
-/

set_option autoImplicit false

namespace MappingForms

open Json (Plain Reading bind_eq_some_of fields?_record)
open Json.Fields (required_of withDefault_of nullable_of depth_required_le depth_withDefault_le
  depth_nullable_le)

variable {condition : Json.Numeral → Prop}

/-! ## Leaves -/

namespace Binary64

/-- The double is read back from what is written for it. -/
def SurvivesWriting (number : Binary64) : Prop :=
  Literal.binary64? number.toJson = some number

instance (number : Binary64) : Decidable number.SurvivesWriting :=
  inferInstanceAs (Decidable (_ = _))

/-- A double that survives has digits, as null is not read as a double. -/
theorem SurvivesWriting.toBinary64? {number : Binary64} (survives : number.SurvivesWriting) :
    (Json.Numeral.ofBinary64 number).toBinary64? = some number := by
  unfold SurvivesWriting toJson at survives
  split at survives
  · cases survives
  · exact survives

theorem depth_toJson (number : Binary64) : number.toJson.depth = 0 := by
  unfold toJson
  split <;> rfl

theorem plain_toJson (number : Binary64) (digits : condition (.ofBinary64 number)) :
    number.toJson.Plain condition := by
  unfold toJson
  split
  · exact .null
  · exact .number digits

end Binary64

namespace Literal

def float? : Literal → Option Binary64
  | float value => some value
  | _ => none

private theorem int64?_int (value : Int64) : int64? (.int value.toInt) = some value := by
  rw [int64?, Json.int?_int, Option.bind_some, if_pos ⟨value.minValue_le_toInt, value.toInt_le⟩,
    Int64.ofInt_toInt]

/-- A literal is read back if its float survives. -/
theorem ofJson?_toJson {value : Literal}
    (survives : ∀ number ∈ value.float?, number.SurvivesWriting) :
    ofJson? value.toJson = some value := by
  cases value with
  | integer value => exact congrArg (Option.map integer) (int64?_int value)
  | float number => exact congrArg (Option.map float) (survives number rfl)
  | _ => rfl

private theorem depth_toJson_le (value : Literal) : value.toJson.depth ≤ 1 := by
  cases value with
  | null | typedNull => exact Nat.zero_le _
  | float number => simp [toJson, Json.record, Json.depth, Json.depthOfMembers, number.depth_toJson]
  | _ => exact Nat.le_refl _

theorem plain_toJson {value : Literal}
    (integers : ∀ integer : Int64, condition (.ofInt integer.toInt))
    (floats : ∀ number ∈ value.float?, condition (.ofBinary64 number)) :
    value.toJson.Plain condition := by
  cases value with
  | null => exact .text _
  | typedNull => exact .text _
  | bool value => exact .record (List.forall_mem_singleton.2 (.bool value))
  | integer value => exact .record (List.forall_mem_singleton.2 (.number (integers value)))
  | float number =>
    exact .record (List.forall_mem_singleton.2 (number.plain_toJson (floats number rfl)))
  | string value => exact .record (List.forall_mem_singleton.2 (.text value))

end Literal

theorem BinaryOp.ofJson?_toJson (reading : Reading) (op : BinaryOp) :
    ofJson? reading op.toJson = some op :=
  Json.variant?_text reading (by cases op <;> rfl)

theorem CallStyle.ofJson?_toJson (reading : Reading) (style : CallStyle) :
    ofJson? reading style.toJson = some style :=
  Json.variant?_text reading (by cases style <;> rfl)

namespace ExprKind

private theorem ofJson?_label (kind : ExprKind) : ofJson? (.text kind.label) = some kind := by
  cases kind <;> rfl

private theorem ofInnerJson?_label (kind : ExprKind) :
    ofInnerJson? (.text kind.label) = some kind := by
  cases kind <;> rfl

end ExprKind

/-! ## Written expressions -/

def Initializer.toJson : Initializer → Json
  | ⟨name, declared, value⟩ =>
    .record [("member", .text name), ("member_ty", declared.toJson), ("value", value.toJson)]

namespace Expr

def members : Expr → List (String × Json)
  | literal value type => [("value", value.toJson), ("ty", type.toJson)]
  | parameter name type => [("name", .text name), ("ty", type.toJson)]
  | member receiver name optional type =>
    [("receiver", receiver.toJson), ("member", .text name), ("optional", .bool optional),
      ("ty", type.toJson)]
  | call target style receiver arguments optional type =>
    [("target", target.toJson), ("style", style.toJson), ("receiver", .nullable toJson receiver),
      ("arguments", .list toJson arguments), ("optional", .bool optional), ("ty", type.toJson)]
  | construct type arguments initializers =>
    [("ty", type.toJson), ("arguments", .list toJson arguments),
      ("initializers", .list Initializer.toJson initializers)]
  | conditional condition whenTrue whenFalse type =>
    [("condition", condition.toJson), ("when_true", whenTrue.toJson),
      ("when_false", whenFalse.toJson), ("ty", type.toJson)]
  | coalesce left right type =>
    [("left", left.toJson), ("right", right.toJson), ("ty", type.toJson)]
  | binary op left right type =>
    [("op", op.toJson), ("left", left.toJson), ("right", right.toJson), ("ty", type.toJson)]
  | raise exception type => [("exception", exception.toJson), ("ty", type.toJson)]
  | projection source element transform materialize type =>
    [("source", source.toJson), ("element", .text element), ("transform", transform.toJson),
      ("materialize", .nullable .text materialize), ("ty", type.toJson)]
  | guarded receiver body type =>
    [("receiver", receiver.toJson), ("body", body.toJson), ("ty", type.toJson)]

private theorem toJsonAll_eq_map (exprs : List Expr) : toJsonAll exprs = exprs.map toJson := by
  induction exprs with
  | nil => rfl
  | cons first rest inductionHypothesis => rw [toJsonAll, inductionHypothesis, List.map_cons]

private theorem toJsonInitializers_eq_map (initializers : List Initializer) :
    toJsonInitializers initializers = initializers.map Initializer.toJson := by
  induction initializers with
  | nil => rfl
  | cons first rest inductionHypothesis =>
    obtain ⟨name, declared, value⟩ := first
    rw [toJsonInitializers, inductionHypothesis, List.map_cons]
    rfl

private theorem toJson_eq (expr : Expr) : expr.toJson = tagged expr.kind expr.members := by
  cases expr with
  | call target style receiver arguments optional type =>
    cases receiver <;> rw [toJson, toJsonAll_eq_map] <;> rfl
  | construct type arguments initializers =>
    rw [toJson, toJsonAll_eq_map, toJsonInitializers_eq_map]
    rfl
  | _ => rfl

private theorem toJson_ne_null (expr : Expr) : expr.toJson ≠ .null := by
  rw [toJson_eq]
  exact Json.record_ne_null _

private theorem untagged?_cons {tag : Json} {others : List (Option String × Json)}
    (notKind : ∀ member ∈ others, (member.1 == some "kind") = false) :
    untagged? (.object ((some "kind", tag) :: others)) = some (tag, .object others) := by
  have matched : (others.filter fun member => member.1 == some "kind") = [] :=
    List.filter_eq_nil_iff.2 fun member listed => Bool.eq_false_iff.1 (notKind member listed)
  have unmatched : others.filter (not ∘ fun member => member.1 == some "kind") = others :=
    List.filter_eq_self.2 fun member listed => congrArg not (notKind member listed)
  have split : ((some "kind", tag) :: others).partition (fun member => member.1 == some "kind") =
      ([(some "kind", tag)], others) := by
    rw [List.partition_eq_filter_filter, List.filter_cons_of_pos (by rfl),
      List.filter_cons_of_neg (by simp), matched, unmatched]
  rw [untagged?, split]

private theorem untagged?_tagged {kind : ExprKind} {members : List (String × Json)}
    (others : ∀ member ∈ members, member.1 ≠ "kind") :
    untagged? (tagged kind members) = some (.text kind.label, .record members) := by
  refine untagged?_cons (List.forall_mem_map.2 fun member listed => ?_)
  simpa using others member listed

private theorem untagged?_toJson (expr : Expr) :
    untagged? expr.toJson = some (.text expr.kind.label, .record expr.members) := by
  rw [toJson_eq]
  apply untagged?_tagged
  cases expr <;> simp [members]

/-- An expression is put together again from its members, given how to read the expressions in
it. -/
theorem node?_members {child : Json → Option Expr} {expr : Expr}
    (back : ∀ part ∈ expr.children, child part.toJson = some part)
    (survives : ∀ value type, expr = literal value type →
      ∀ number ∈ value.float?, number.SurvivesWriting) :
    node? child expr.kind (.record expr.members) = some expr := by
  have typeBack (type : TypeRef) : TypeRef.ofJson? .checked type.toJson = some type :=
    TypeRef.ofJson?_toJson rfl type
  cases expr with
  | literal value type =>
    exact bind_eq_some_of (fields?_record rfl (by decide)) <|
      bind_eq_some_of (required_of rfl (Literal.ofJson?_toJson (survives value type rfl))) <|
      bind_eq_some_of (required_of rfl (typeBack type)) rfl
  | parameter name type =>
    exact bind_eq_some_of (fields?_record rfl (by decide)) <|
      bind_eq_some_of (required_of rfl rfl) <|
      bind_eq_some_of (required_of rfl (typeBack type)) rfl
  | member receiver name optional type =>
    exact bind_eq_some_of (fields?_record rfl (by decide)) <|
      bind_eq_some_of (required_of rfl (back receiver (by simp [children]))) <|
      bind_eq_some_of (required_of rfl rfl) <|
      bind_eq_some_of (withDefault_of rfl rfl) <|
      bind_eq_some_of (required_of rfl (typeBack type)) rfl
  | call target style receiver arguments optional type =>
    have argumentsBack : list? child (.list toJson arguments) = some arguments :=
      Json.list?_list rfl fun argument listed => back argument (List.mem_append_right _ listed)
    exact bind_eq_some_of (fields?_record rfl (by decide)) <|
      bind_eq_some_of (required_of rfl (CallableId.ofJson?_toJson rfl target)) <|
      bind_eq_some_of (withDefault_of rfl (CallStyle.ofJson?_toJson _ style)) <|
      bind_eq_some_of (nullable_of rfl fun receiver isReceiver =>
        ⟨receiver.toJson_ne_null, back receiver (by simp_all [children])⟩) <|
      bind_eq_some_of (withDefault_of rfl argumentsBack) <|
      bind_eq_some_of (withDefault_of rfl rfl) <|
      bind_eq_some_of (required_of rfl (typeBack type)) rfl
  | construct type arguments initializers =>
    have argumentsBack : list? child (.list toJson arguments) = some arguments :=
      Json.list?_list rfl fun argument listed => back argument (List.mem_append_left _ listed)
    have initializersBack :
        list? (initializer? child) (.list Initializer.toJson initializers) = some initializers := by
      refine Json.list?_list rfl ?_
      rintro ⟨name, declared, value⟩ listed
      have valueBack : child value.toJson = some value :=
        back value (List.mem_append_right _ (List.mem_map.2 ⟨_, listed, rfl⟩))
      exact bind_eq_some_of (fields?_record rfl (by decide)) <|
        bind_eq_some_of (required_of rfl rfl) <|
        bind_eq_some_of (required_of rfl (typeBack declared)) <|
        bind_eq_some_of (required_of rfl valueBack) rfl
    exact bind_eq_some_of (fields?_record rfl (by decide)) <|
      bind_eq_some_of (required_of rfl (typeBack type)) <|
      bind_eq_some_of (withDefault_of rfl argumentsBack) <|
      bind_eq_some_of (withDefault_of rfl initializersBack) rfl
  | conditional condition whenTrue whenFalse type =>
    exact bind_eq_some_of (fields?_record rfl (by decide)) <|
      bind_eq_some_of (required_of rfl (back condition (by simp [children]))) <|
      bind_eq_some_of (required_of rfl (back whenTrue (by simp [children]))) <|
      bind_eq_some_of (required_of rfl (back whenFalse (by simp [children]))) <|
      bind_eq_some_of (required_of rfl (typeBack type)) rfl
  | coalesce left right type =>
    exact bind_eq_some_of (fields?_record rfl (by decide)) <|
      bind_eq_some_of (required_of rfl (back left (by simp [children]))) <|
      bind_eq_some_of (required_of rfl (back right (by simp [children]))) <|
      bind_eq_some_of (required_of rfl (typeBack type)) rfl
  | binary op left right type =>
    exact bind_eq_some_of (fields?_record rfl (by decide)) <|
      bind_eq_some_of (required_of rfl (BinaryOp.ofJson?_toJson _ op)) <|
      bind_eq_some_of (required_of rfl (back left (by simp [children]))) <|
      bind_eq_some_of (required_of rfl (back right (by simp [children]))) <|
      bind_eq_some_of (required_of rfl (typeBack type)) rfl
  | raise exception type =>
    exact bind_eq_some_of (fields?_record rfl (by decide)) <|
      bind_eq_some_of (required_of rfl (back exception (by simp [children]))) <|
      bind_eq_some_of (required_of rfl (typeBack type)) rfl
  | projection source element transform materialize type =>
    exact bind_eq_some_of (fields?_record rfl (by decide)) <|
      bind_eq_some_of (required_of rfl (back source (by simp [children]))) <|
      bind_eq_some_of (required_of rfl rfl) <|
      bind_eq_some_of (required_of rfl (back transform (by simp [children]))) <|
      bind_eq_some_of (nullable_of rfl fun name _ => ⟨Json.text_ne_null name, rfl⟩) <|
      bind_eq_some_of (required_of rfl (typeBack type)) rfl
  | guarded receiver body type =>
    exact bind_eq_some_of (fields?_record rfl (by decide)) <|
      bind_eq_some_of (required_of rfl (back receiver (by simp [children]))) <|
      bind_eq_some_of (required_of rfl (back body (by simp [children]))) <|
      bind_eq_some_of (required_of rfl (typeBack type)) rfl

/-! ## Depth and numbers of what is written -/

/-- An expression nests one level deeper than its members. -/
theorem depth_toJson_le_iff {expr : Expr} {levels : Nat} :
    expr.toJson.depth ≤ levels + 1 ↔ ∀ member ∈ expr.members, member.2.depth ≤ levels := by
  rw [toJson_eq, tagged, Json.depth_record_le_iff, List.forall_mem_cons]
  exact and_iff_right (Nat.zero_le _)

private theorem depth_toJson_pos (expr : Expr) : 0 < expr.toJson.depth := by
  rw [toJson_eq]
  exact Nat.succ_pos _

private theorem depth_lt_of_mem_list {α : Type} {encode : α → Json} {values : List α} {value : α}
    (listed : value ∈ values) : (encode value).depth < (Json.list encode values).depth :=
  Json.depth_lt_of_mem_parts (List.mem_map_of_mem listed)

private theorem depth_value_lt (init : Initializer) :
    init.value.toJson.depth < init.toJson.depth := by
  obtain ⟨name, declared, value⟩ := init
  exact Json.depth_lt_of_mem_parts (by simp [Initializer.toJson, Json.record, Json.parts,
    Initializer.value])

/-- The written form of a child is nested in that of the expression. -/
theorem depth_child_le {expr child : Expr} {levels : Nat} (listed : child ∈ expr.children)
    (within : expr.toJson.depth ≤ levels + 1) : child.toJson.depth ≤ levels := by
  rw [depth_toJson_le_iff] at within
  cases expr with
  | literal | parameter => cases listed
  | call target style receiver arguments optional type =>
    rcases List.mem_append.1 listed with isReceiver | isArgument
    · rw [Option.mem_toList] at isReceiver
      subst isReceiver
      exact within ("receiver", child.toJson) (by simp [members, Json.nullable])
    · have inList := within ("arguments", .list toJson arguments) (by simp [members])
      exact Nat.le_trans (Nat.le_of_lt (depth_lt_of_mem_list isArgument)) inList
  | construct type arguments initializers =>
    rcases List.mem_append.1 listed with isArgument | isValue
    · have inList := within ("arguments", .list toJson arguments) (by simp [members])
      exact Nat.le_trans (Nat.le_of_lt (depth_lt_of_mem_list isArgument)) inList
    · obtain ⟨init, isInit, rfl⟩ := List.mem_map.1 isValue
      have inList : (Json.list Initializer.toJson initializers).depth ≤ levels :=
        within ("initializers", .list Initializer.toJson initializers) (by simp [members])
      have inInit : init.toJson.depth < _ := depth_lt_of_mem_list isInit
      have inValue := depth_value_lt init
      omega
  | _ =>
    simp only [children, List.mem_cons, List.not_mem_nil, or_false] at listed
    simp only [members, List.forall_mem_cons] at within
    grind

def float? : Expr → Option Binary64
  | literal value _ => value.float?
  | _ => none

def floats (expr : Expr) : List Binary64 := expr.nodes.filterMap float?

private theorem mem_floats_of_mem_children {expr child : Expr} (listed : child ∈ expr.children)
    {number : Binary64} (inChild : number ∈ child.floats) : number ∈ expr.floats := by
  obtain ⟨node, member, isFloat⟩ := List.mem_filterMap.1 inChild
  exact List.mem_filterMap.2 ⟨node, mem_nodes_of_mem_children listed member, isFloat⟩

private theorem mem_floats_literal {value : Literal} {type : TypeRef} {number : Binary64}
    (isFloat : number ∈ value.float?) : number ∈ (literal value type).floats :=
  List.mem_filterMap.2 ⟨_, mem_nodes_self _, isFloat⟩

/-- All strings of a written expression are texts, and its numbers are those of its integers and
floats. -/
theorem plain_toJson {expr : Expr}
    (integers : ∀ integer : Int64, condition (.ofInt integer.toInt))
    (floats : ∀ number ∈ expr.floats, condition (.ofBinary64 number)) :
    expr.toJson.Plain condition := by
  induction expr using induction_on_children with
  | step expr inductionHypothesis =>
    have childrenPlain : ∀ child ∈ expr.children, child.toJson.Plain condition :=
      fun child listed => inductionHypothesis child listed fun number inChild =>
        floats number (mem_floats_of_mem_children listed inChild)
    suffices membersPlain : ∀ member ∈ expr.members, member.2.Plain condition by
      rw [toJson_eq]
      exact .record (List.forall_mem_cons.2 ⟨.text _, membersPlain⟩)
    cases expr with
    | literal value type =>
      have valuePlain := Literal.plain_toJson integers fun number isFloat =>
        floats number (mem_floats_literal isFloat)
      simp [members, valuePlain, TypeRef.plain_toJson]
    | call target style receiver arguments optional type =>
      have receiverPlain : (Json.nullable toJson receiver).Plain condition :=
        .nullable fun child isReceiver => childrenPlain child (by simp_all [children])
      have argumentsPlain : (Json.list toJson arguments).Plain condition :=
        .list fun child listed => childrenPlain child (List.mem_append_right _ listed)
      simp [members, TypeRef.plain_toJson, CallableId.plain_toJson, receiverPlain, argumentsPlain,
        CallStyle.toJson, Plain.bool, Plain.text]
    | construct type arguments initializers =>
      have argumentsPlain : (Json.list toJson arguments).Plain condition :=
        .list fun child listed => childrenPlain child (List.mem_append_left _ listed)
      have initializersPlain : (Json.list Initializer.toJson initializers).Plain condition := by
        refine .list ?_
        rintro ⟨name, declared, value⟩ listed
        have valuePlain := childrenPlain value
          (List.mem_append_right _ (List.mem_map.2 ⟨_, listed, rfl⟩))
        refine .record ?_
        simp [Plain.text, TypeRef.plain_toJson, valuePlain]
      simp [members, TypeRef.plain_toJson, argumentsPlain, initializersPlain]
    | projection source element transform materialize type =>
      have materializePlain : (Json.nullable Json.text materialize).Plain condition :=
        .nullable fun name _ => .text name
      simp_all [members, children, Plain.text, TypeRef.plain_toJson]
    | _ =>
      simp_all [members, children, Plain.text, Plain.bool, TypeRef.plain_toJson, BinaryOp.toJson]

/-- A written expression passes the check that is made before it is read. -/
theorem isStrict_toJson {expr : Expr} {levels : Nat} (within : expr.toJson.depth ≤ levels)
    (survives : ∀ number ∈ expr.floats, number.SurvivesWriting) :
    expr.toJson.isStrict levels = true := by
  refine Json.isStrict_of_plain (plain_toJson ?_ ?_) within
  · intro integer
    have inRange : integer.toInt.natAbs < Json.Numeral.significandLimit := by
      have lower := integer.le_toInt
      have upper := integer.toInt_lt
      simp only [Json.Numeral.significandLimit, UInt64.size]
      omega
    exact Json.Numeral.toBinary64?_ofInt_isSome inRange
  · intro number isFloat
    exact Option.isSome_iff_exists.2 ⟨number, (survives number isFloat).toBinary64?⟩

/-! ## The round trip -/

private theorem ofInnerJson?_toJson {expr : Expr} {levels : Nat}
    (within : expr.toJson.depth ≤ levels)
    (survives : ∀ number ∈ expr.floats, number.SurvivesWriting) :
    ofInnerJson? levels expr.toJson = some expr := by
  induction expr using induction_on_children generalizing levels with
  | step expr inductionHypothesis =>
    obtain ⟨inner, rfl⟩ : ∃ inner, levels = inner + 1 :=
      ⟨levels - 1, by have := expr.depth_toJson_pos; omega⟩
    refine bind_eq_some_of expr.untagged?_toJson <|
      bind_eq_some_of (ExprKind.ofInnerJson?_label expr.kind) (node?_members ?_ ?_)
    · intro child listed
      exact inductionHypothesis child listed (depth_child_le listed within) fun number inChild =>
        survives number (mem_floats_of_mem_children listed inChild)
    · rintro value type rfl number isFloat
      exact survives number (mem_floats_literal isFloat)

/-- An expression is read back if it nests within the levels that are left and its floats
survive. -/
theorem ofJson?_toJson {expr : Expr} {reading : Reading}
    (within : expr.toJson.depth ≤ reading.levels)
    (survives : ∀ number ∈ expr.floats, number.SurvivesWriting) :
    ofJson? reading expr.toJson = some expr := by
  rw [ofJson?, if_pos (isStrict_toJson within survives)]
  refine bind_eq_some_of expr.untagged?_toJson <|
    bind_eq_some_of (ExprKind.ofJson?_label expr.kind) (node?_members ?_ ?_)
  · intro child listed
    have childWithin : child.toJson.depth ≤ reading.levels :=
      depth_child_le listed (Nat.le_succ_of_le within)
    exact ofInnerJson?_toJson childWithin fun number inChild =>
      survives number (mem_floats_of_mem_children listed inChild)
  · rintro value type rfl number isFloat
    exact survives number (mem_floats_literal isFloat)

/-! ## Expressions that are accepted -/

private theorem shallow_initializer? {child : Json → Option Expr}
    (shallow : Json.Shallow child toJson) :
    Json.Shallow (initializer? child) Initializer.toJson := by
  intro json init decoded
  simp only [initializer?, Option.bind_eq_bind, Option.bind_eq_some_iff, Option.pure_def,
    Option.some.injEq] at decoded
  obtain ⟨fields, taken, name, -, declared, declaredTaken, value, valueTaken, rfl⟩ := decoded
  obtain ⟨levels, depthEq⟩ : ∃ levels, json.depth = levels + 1 :=
    ⟨json.depth - 1, by have := Json.depth_pos_of_fields? taken; omega⟩
  have within := Json.depth_le_of_fields? taken (Nat.le_of_eq depthEq)
  rw [depthEq, Initializer.toJson, Json.depth_record_le_iff]
  simp only [List.forall_mem_cons]
  exact ⟨Nat.zero_le _, depth_required_le within (TypeRef.shallow_ofJson? _) declaredTaken,
    depth_required_le within shallow valueTaken, List.forall_mem_nil _⟩

/-- The type of an expression is always written, so that fields which are written although they
were not found make nothing deeper. -/
theorem shallow_node? {child : Json → Option Expr} (shallow : Json.Shallow child toJson)
    (kind : ExprKind) : Json.Shallow (node? child kind) toJson := by
  intro json expr decoded
  have typeShallow := TypeRef.shallow_ofJson? .checked
  have listShallow : Json.Shallow (list? child) (Json.list toJson) := shallow.list .checked
  cases kind
  all_goals
    simp only [node?, Option.bind_eq_bind, Option.bind_eq_some_iff, Option.pure_def,
      Option.some.injEq] at decoded
    obtain ⟨fields, taken, decoded⟩ := decoded
    obtain ⟨levels, depthEq⟩ : ∃ levels, json.depth = levels + 1 :=
      ⟨json.depth - 1, by have := Json.depth_pos_of_fields? taken; omega⟩
    have within := Json.depth_le_of_fields? taken (Nat.le_of_eq depthEq)
    rw [depthEq, depth_toJson_le_iff]
  case literal =>
    obtain ⟨value, -, type, typeTaken, rfl⟩ := decoded
    have typeLe := depth_required_le within typeShallow typeTaken
    simp only [members, List.forall_mem_cons]
    exact ⟨Nat.le_trans value.depth_toJson_le typeLe, typeLe, List.forall_mem_nil _⟩
  case parameter =>
    obtain ⟨name, -, type, typeTaken, rfl⟩ := decoded
    simp only [members, List.forall_mem_cons]
    exact ⟨Nat.zero_le _, depth_required_le within typeShallow typeTaken, List.forall_mem_nil _⟩
  case member =>
    obtain ⟨receiver, receiverTaken, name, -, optional, -, type, typeTaken, rfl⟩ := decoded
    simp only [members, List.forall_mem_cons]
    exact ⟨depth_required_le within shallow receiverTaken, Nat.zero_le _, Nat.zero_le _,
      depth_required_le within typeShallow typeTaken, List.forall_mem_nil _⟩
  case call =>
    obtain ⟨target, -, style, -, receiver, receiverTaken, arguments, argumentsTaken, optional, -,
      type, typeTaken, rfl⟩ := decoded
    have typeLe := depth_required_le within typeShallow typeTaken
    simp only [members, List.forall_mem_cons]
    exact ⟨typeLe, Nat.zero_le _, depth_nullable_le within shallow receiverTaken,
      depth_withDefault_le within listShallow argumentsTaken typeLe, Nat.zero_le _, typeLe,
      List.forall_mem_nil _⟩
  case construct =>
    obtain ⟨type, typeTaken, arguments, argumentsTaken, initializers, initializersTaken, rfl⟩ :=
      decoded
    have typeLe := depth_required_le within typeShallow typeTaken
    simp only [members, List.forall_mem_cons]
    exact ⟨typeLe, depth_withDefault_le within listShallow argumentsTaken typeLe,
      depth_withDefault_le within ((shallow_initializer? shallow).list .checked)
        initializersTaken typeLe, List.forall_mem_nil _⟩
  case conditional =>
    obtain ⟨condition, conditionTaken, whenTrue, trueTaken, whenFalse, falseTaken, type, typeTaken,
      rfl⟩ := decoded
    simp only [members, List.forall_mem_cons]
    exact ⟨depth_required_le within shallow conditionTaken,
      depth_required_le within shallow trueTaken, depth_required_le within shallow falseTaken,
      depth_required_le within typeShallow typeTaken, List.forall_mem_nil _⟩
  case coalesce =>
    obtain ⟨left, leftTaken, right, rightTaken, type, typeTaken, rfl⟩ := decoded
    simp only [members, List.forall_mem_cons]
    exact ⟨depth_required_le within shallow leftTaken, depth_required_le within shallow rightTaken,
      depth_required_le within typeShallow typeTaken, List.forall_mem_nil _⟩
  case binary =>
    obtain ⟨op, -, left, leftTaken, right, rightTaken, type, typeTaken, rfl⟩ := decoded
    simp only [members, List.forall_mem_cons]
    exact ⟨Nat.zero_le _, depth_required_le within shallow leftTaken,
      depth_required_le within shallow rightTaken,
      depth_required_le within typeShallow typeTaken, List.forall_mem_nil _⟩
  case raise =>
    obtain ⟨exception, exceptionTaken, type, typeTaken, rfl⟩ := decoded
    simp only [members, List.forall_mem_cons]
    exact ⟨depth_required_le within shallow exceptionTaken,
      depth_required_le within typeShallow typeTaken, List.forall_mem_nil _⟩
  case projection =>
    obtain ⟨source, sourceTaken, element, -, transform, transformTaken, materialize, -, type,
      typeTaken, rfl⟩ := decoded
    have nameLe : (Json.nullable Json.text materialize).depth ≤ levels := by
      cases materialize <;> exact Nat.zero_le _
    simp only [members, List.forall_mem_cons]
    exact ⟨depth_required_le within shallow sourceTaken, Nat.zero_le _,
      depth_required_le within shallow transformTaken, nameLe,
      depth_required_le within typeShallow typeTaken, List.forall_mem_nil _⟩
  case guarded =>
    obtain ⟨receiver, receiverTaken, body, bodyTaken, type, typeTaken, rfl⟩ := decoded
    simp only [members, List.forall_mem_cons]
    exact ⟨depth_required_le within shallow receiverTaken,
      depth_required_le within shallow bodyTaken,
      depth_required_le within typeShallow typeTaken, List.forall_mem_nil _⟩

/-- Without its kind a value is as deep as with it, or less. -/
theorem depth_untagged?_le {json tag rest : Json} (taken : untagged? json = some (tag, rest)) :
    rest.depth ≤ json.depth := by
  unfold untagged? at taken
  split at taken
  next tag' others =>
    obtain ⟨rfl, rfl⟩ := Prod.mk.inj (Option.some.inj taken)
    exact Nat.succ_le_succ (Nat.le_max_right ..)
  next members =>
    split at taken
    next key tag' others split =>
      obtain ⟨rfl, rfl⟩ := Prod.mk.inj (Option.some.inj taken)
      rw [List.partition_eq_filter_filter] at split
      obtain ⟨-, rfl⟩ := Prod.mk.inj split
      refine Json.depth_object_le_iff.2 fun member listed => ?_
      exact Json.depthOfMembers_le_iff.1 (Nat.le_refl _) member (List.mem_filter.1 listed).1
    next => cases taken
  next => cases taken

private theorem shallow_ofInnerJson? (levels : Nat) :
    Json.Shallow (ofInnerJson? levels) toJson := by
  induction levels with
  | zero =>
    intro json expr decoded
    cases decoded
  | succ levels inductionHypothesis =>
    intro json expr decoded
    obtain ⟨⟨tag, rest⟩, taken, afterTag⟩ := Option.bind_eq_some_iff.1 decoded
    obtain ⟨kind, -, isNode⟩ := Option.bind_eq_some_iff.1 afterTag
    exact Nat.le_trans (shallow_node? inductionHypothesis kind rest expr isNode)
      (depth_untagged?_le taken)

/-- An accepted expression is written within the levels that it was accepted with. -/
theorem depth_toJson_le_of_ofJson? {reading : Reading} {json : Json} {expr : Expr}
    (decoded : ofJson? reading json = some expr) : expr.toJson.depth ≤ reading.levels := by
  unfold ofJson? at decoded
  split at decoded
  next strict =>
    obtain ⟨⟨tag, rest⟩, taken, afterTag⟩ := Option.bind_eq_some_iff.1 decoded
    obtain ⟨kind, -, isNode⟩ := Option.bind_eq_some_iff.1 afterTag
    calc expr.toJson.depth
      _ ≤ rest.depth := shallow_node? (shallow_ofInnerJson? _) kind rest expr isNode
      _ ≤ json.depth := depth_untagged?_le taken
      _ ≤ reading.levels := Json.depth_le_of_isStrict strict
  next => cases decoded

end Expr

end MappingForms
