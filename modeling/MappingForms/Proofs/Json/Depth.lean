import MappingForms.Json

/-!
Contract: how deeply JSON values nest.

Owns: the parts of a value with induction over them, the depth of a value, and what the check of a
whole value says about its depth.
-/

set_option autoImplicit false

namespace MappingForms.Json

/-! ## Parts -/

/-- The elements of an array, or the values of the members of an object. -/
def parts : Json → List Json
  | array elements => elements
  | object members => members.map (·.2)
  | _ => []

private theorem sizeOf_lt_of_mem_parts {json part : Json} (listed : part ∈ json.parts) :
    sizeOf part < sizeOf json := by
  cases json with
  | array elements =>
    have smaller : sizeOf part < sizeOf elements := List.sizeOf_lt_of_mem listed
    simp only [array.sizeOf_spec]
    omega
  | object members =>
    obtain ⟨⟨key, value⟩, isMember, rfl⟩ := List.mem_map.1 listed
    have smaller := List.sizeOf_lt_of_mem isMember
    simp only [Prod.mk.sizeOf_spec] at smaller
    simp only [object.sizeOf_spec]
    omega
  | _ => cases listed

/-- What holds of a value whenever it holds of its parts holds of every value. -/
theorem induction_on_parts {motive : Json → Prop}
    (step : ∀ json, (∀ part ∈ json.parts, motive part) → motive json) (json : Json) :
    motive json :=
  step json fun part listed =>
    have : sizeOf part < sizeOf json := sizeOf_lt_of_mem_parts listed
    induction_on_parts step part
termination_by sizeOf json

/-! ## Depth -/

mutual

/-- The number of arrays and objects around the innermost value. -/
def depth : Json → Nat
  | array elements => depthOfAll elements + 1
  | object members => depthOfMembers members + 1
  | _ => 0
termination_by structural json => json

@[inherit_doc depth]
def depthOfAll : List Json → Nat
  | [] => 0
  | first :: rest => max first.depth (depthOfAll rest)
termination_by structural elements => elements

@[inherit_doc depth]
def depthOfMembers : List (Option String × Json) → Nat
  | [] => 0
  | (_, value) :: rest => max value.depth (depthOfMembers rest)
termination_by structural members => members

end

variable {levels : Nat}

theorem depthOfAll_le_iff {elements : List Json} :
    depthOfAll elements ≤ levels ↔ ∀ element ∈ elements, element.depth ≤ levels := by
  induction elements with
  | nil => simp [depthOfAll]
  | cons first rest inductionHypothesis =>
    rw [depthOfAll, Nat.max_le, inductionHypothesis, List.forall_mem_cons]

theorem depthOfMembers_le_iff {members : List (Option String × Json)} :
    depthOfMembers members ≤ levels ↔ ∀ member ∈ members, member.2.depth ≤ levels := by
  induction members with
  | nil => simp [depthOfMembers]
  | cons first rest inductionHypothesis =>
    obtain ⟨key, value⟩ := first
    rw [depthOfMembers, Nat.max_le, inductionHypothesis, List.forall_mem_cons]

private theorem depth_array_le_iff {elements : List Json} :
    (array elements).depth ≤ levels + 1 ↔ ∀ element ∈ elements, element.depth ≤ levels := by
  rw [depth, Nat.add_le_add_iff_right, depthOfAll_le_iff]

theorem depth_object_le_iff {members : List (Option String × Json)} :
    (object members).depth ≤ levels + 1 ↔ ∀ member ∈ members, member.2.depth ≤ levels := by
  rw [depth, Nat.add_le_add_iff_right, depthOfMembers_le_iff]

/-- A record nests one level deeper than its members. -/
theorem depth_record_le_iff {members : List (String × Json)} :
    (record members).depth ≤ levels + 1 ↔ ∀ member ∈ members, member.2.depth ≤ levels := by
  rw [record, depth_object_le_iff, List.forall_mem_map]

/-- A list nests one level deeper than its elements. -/
theorem depth_list_le_iff {α : Type} {encode : α → Json} {values : List α} :
    (list encode values).depth ≤ levels + 1 ↔ ∀ value ∈ values, (encode value).depth ≤ levels := by
  rw [list, depth_array_le_iff, List.forall_mem_map]

theorem depth_lt_of_mem_parts {json part : Json} (listed : part ∈ json.parts) :
    part.depth < json.depth := by
  cases json with
  | array elements => exact Nat.lt_succ_of_le (depthOfAll_le_iff.1 (Nat.le_refl _) part listed)
  | object members =>
    obtain ⟨member, isMember, rfl⟩ := List.mem_map.1 listed
    exact Nat.lt_succ_of_le (depthOfMembers_le_iff.1 (Nat.le_refl _) member isMember)
  | _ => cases listed

/-! ## Values that are checked as a whole -/

private theorem areStrict_iff {elements : List Json} :
    areStrict levels elements = true ↔ ∀ element ∈ elements, element.isStrict levels = true := by
  induction elements with
  | nil => simp [areStrict]
  | cons first rest inductionHypothesis =>
    rw [areStrict, Bool.and_eq_true, inductionHypothesis, List.forall_mem_cons]

private theorem membersAreStrict_iff {members : List (Option String × Json)} :
    membersAreStrict levels members = true ↔
      ∀ member ∈ members, member.1.isSome = true ∧ member.2.isStrict levels = true := by
  induction members with
  | nil => simp [membersAreStrict]
  | cons first rest inductionHypothesis =>
    obtain ⟨key, value⟩ := first
    rw [membersAreStrict, Bool.and_eq_true, Bool.and_eq_true, inductionHypothesis,
      List.forall_mem_cons]

/-- A value that passes the check nests within the levels. -/
theorem depth_le_of_isStrict {json : Json} (strict : json.isStrict levels = true) :
    json.depth ≤ levels := by
  induction json using induction_on_parts generalizing levels with
  | step json inductionHypothesis =>
    cases json with
    | array elements =>
      cases levels with
      | zero => cases strict
      | succ inner =>
        refine depth_array_le_iff.2 fun element listed => ?_
        exact inductionHypothesis element listed (areStrict_iff.1 strict element listed)
    | object members =>
      cases levels with
      | zero => cases strict
      | succ inner =>
        refine depth_object_le_iff.2 fun member listed => ?_
        exact inductionHypothesis member.2 (List.mem_map_of_mem listed)
          (membersAreStrict_iff.1 strict member listed).2
    | _ => exact Nat.zero_le _

/-- All strings of the value are texts, and all its numbers meet the condition. -/
inductive Plain (condition : Numeral → Prop) : Json → Prop
  | null : Plain condition null
  | bool (value : Bool) : Plain condition (bool value)
  | number {numeral : Numeral} (meets : condition numeral) : Plain condition (number numeral)
  | text (content : String) : Plain condition (text content)
  | array {elements : List Json} (plain : ∀ element ∈ elements, Plain condition element) :
    Plain condition (array elements)
  | record {members : List (String × Json)} (plain : ∀ member ∈ members, Plain condition member.2) :
    Plain condition (record members)

namespace Plain

variable {condition : Numeral → Prop} {α : Type} {encode : α → Json}

theorem list {values : List α} (plain : ∀ value ∈ values, Plain condition (encode value)) :
    Plain condition (Json.list encode values) :=
  array (List.forall_mem_map.2 plain)

theorem nullable {value : Option α} (plain : ∀ content ∈ value, Plain condition (encode content)) :
    Plain condition (Json.nullable encode value) := by
  cases value with
  | none => exact null
  | some content => exact plain content rfl

end Plain

/-- A plain value passes the check if it nests within the levels. -/
theorem isStrict_of_plain {json : Json}
    (plain : json.Plain fun numeral => numeral.toBinary64?.isSome)
    (within : json.depth ≤ levels) : json.isStrict levels = true := by
  induction plain generalizing levels with
  | number inRange => exact inRange
  | array _ inductionHypothesis =>
    cases levels with
    | zero => cases within
    | succ inner =>
      exact areStrict_iff.2 fun element listed =>
        inductionHypothesis element listed (depth_array_le_iff.1 within element listed)
  | record _ inductionHypothesis =>
    cases levels with
    | zero => cases within
    | succ inner =>
      refine membersAreStrict_iff.2 (List.forall_mem_map.2 fun member listed => ⟨rfl, ?_⟩)
      exact inductionHypothesis member listed (depth_record_le_iff.1 within member listed)
  | null | bool | text => rfl

end MappingForms.Json
