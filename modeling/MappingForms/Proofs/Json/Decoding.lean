import MappingForms.Json.Decoding
import MappingForms.Proofs.Json.Depth

/-!
Contract: what is taken out of records, lists and choices.

Owns: that written records, lists and variants are taken apart into what they were written from,
and that whatever is taken out of a value nests less deeply than the value.
-/

set_option autoImplicit false

namespace MappingForms.Json

/-! ## Written values -/

theorem text_ne_null (content : String) : text content ≠ null := nofun

theorem record_ne_null (members : List (String × Json)) : record members ≠ null := nofun

private theorem named?_record (members : List (String × Json)) :
    named? (members.map fun (key, value) => (some key, value)) = some members := by
  induction members with
  | nil => rfl
  | cons first rest inductionHypothesis =>
    rw [List.map_cons, named?, inductionHypothesis]
    rfl

/-- A record that is written with all its fields has these fields. -/
theorem fields?_record {names : List String} {members : List (String × Json)}
    (written : members.map (·.1) = names) (distinct : names.Nodup) :
    (record members).fields? names = some members := by
  have allKnown : (members.filter fun (key, _) => names.contains key) = members := by
    refine List.filter_eq_self.2 fun member listed => ?_
    rw [← written]
    exact List.contains_iff_mem.2 (List.mem_map_of_mem listed)
  rw [record, fields?, named?_record, Option.bind_some, allKnown]
  exact if_pos (written ▸ distinct)

/-- A list is read back if its elements are. -/
theorem list?_list {α : Type} {decode : Reading → Json → Option α} {encode : α → Json}
    {reading inner : Reading} (entered : reading.enter = some inner) {values : List α}
    (back : ∀ value ∈ values, decode inner (encode value) = some value) :
    list? decode reading (list encode values) = some values := by
  rw [list, list?, entered, Option.bind_some]
  induction values with
  | nil => rfl
  | cons first rest inductionHypothesis =>
    rw [List.map_cons, List.mapM_cons, back first List.mem_cons_self,
      inductionHypothesis fun value listed => back value (List.mem_cons_of_mem _ listed)]
    rfl

/-- A variant is read back from its label. -/
theorem variant?_text {α : Type} {all : List α} {label : α → String} {variant : α}
    (reading : Reading) (found : all.find? (fun other => label other == label variant) =
      some variant) :
    variant? all label reading (text (label variant)) = some variant := by
  rw [variant?, text, choice?, Option.bind_some]
  exact found

/-- A step of a decoder that gives a value goes on with that value. -/
theorem bind_eq_some_of {α β : Type} {step : Option α} {next : α → Option β} {value : α}
    {result : β} (taken : step = some value) (rest : next value = some result) :
    (step >>= next) = some result := by
  rw [taken]
  exact rest

namespace Fields

variable {α : Type} {fields : Fields} {name : String} {decode : Json → Option α}

/-- A field that is there is read. -/
theorem required_of {json : Json} {value : α} (look : fields.lookup name = some json)
    (decoded : decode json = some value) : fields.required name decode = some value := by
  rw [required, look, Option.bind_some, decoded]

theorem withDefault_of {absent : α} {json : Json} {value : α}
    (look : fields.lookup name = some json) (decoded : decode json = some value) :
    fields.withDefault name absent decode = some value := by
  rw [withDefault, look]
  exact decoded

/-- What is written for a value that may be missing is told from null. -/
theorem nullable_of {encode : α → Json} {value : Option α}
    (look : fields.lookup name = some (Json.nullable encode value))
    (back : ∀ content ∈ value, encode content ≠ .null ∧ decode (encode content) = some content) :
    fields.nullable name decode = some value := by
  rw [nullable, look]
  cases value with
  | none => rfl
  | some content =>
    obtain ⟨notNull, decoded⟩ := back content rfl
    rw [Json.nullable]
    split
    next isNull => exact absurd (Option.some.inj isNull) notNull
    next json _ same => rw [← Option.some.inj same, decoded, Option.map_some]
    next missing => cases missing

end Fields

/-! ## Values taken apart -/

private theorem mem_of_named? {members : List (Option String × Json)} {fields : Fields}
    (named : named? members = some fields) {field : String × Json} (listed : field ∈ fields) :
    (some field.1, field.2) ∈ members := by
  induction members generalizing fields with
  | nil =>
    cases named
    cases listed
  | cons first rest inductionHypothesis =>
    obtain ⟨key, value⟩ := first
    cases key with
    | none => cases named
    | some key =>
      obtain ⟨later, restNamed, rfl⟩ := Option.map_eq_some_iff.1 named
      rcases List.mem_cons.1 listed with rfl | inRest
      · exact List.mem_cons_self
      · exact List.mem_cons_of_mem _ (inductionHypothesis restNamed inRest)

/-- The fields of a record are parts of the value. -/
theorem mem_parts_of_fields? {names : List String} {json : Json} {fields : Fields}
    (taken : json.fields? names = some fields) {field : String × Json} (listed : field ∈ fields) :
    field.2 ∈ json.parts := by
  cases json with
  | array elements =>
    rw [fields?] at taken
    split at taken
    · rw [← Option.some.inj taken] at listed
      exact (List.of_mem_zip listed).2
    · cases taken
  | object members =>
    obtain ⟨named, isNamed, known⟩ := Option.bind_eq_some_iff.1 taken
    dsimp only at known
    split at known
    · rw [← Option.some.inj known] at listed
      exact List.mem_map.2 ⟨_, mem_of_named? isNamed (List.mem_filter.1 listed).1, rfl⟩
    · cases known
  | _ => cases taken

theorem depth_pos_of_fields? {names : List String} {json : Json} {fields : Fields}
    (taken : json.fields? names = some fields) : 0 < json.depth := by
  cases json with
  | array | object => exact Nat.succ_pos _
  | _ => cases taken

namespace Fields

variable {α : Type} {fields : Fields} {name : String} {decode : Json → Option α}

private theorem mem_of_lookup {json : Json} (look : fields.lookup name = some json) :
    (name, json) ∈ fields := by
  obtain ⟨before, after, split, -⟩ := List.lookup_eq_some_iff.1 look
  rw [split]
  exact List.mem_append_right _ List.mem_cons_self

/-- A required field was there. -/
theorem required_eq_some {value : α} (taken : fields.required name decode = some value) :
    ∃ json, (name, json) ∈ fields ∧ decode json = some value := by
  obtain ⟨json, look, decoded⟩ := Option.bind_eq_some_iff.1 taken
  exact ⟨json, mem_of_lookup look, decoded⟩

/-- A field with a default was there, or has its default. -/
theorem withDefault_eq_some {absent value : α}
    (taken : fields.withDefault name absent decode = some value) :
    value = absent ∨ ∃ json, (name, json) ∈ fields ∧ decode json = some value := by
  rw [withDefault] at taken
  split at taken
  next json look => exact .inr ⟨json, mem_of_lookup look, taken⟩
  next => exact .inl (Option.some.inj taken).symm

private theorem nullable_some {value : α}
    (taken : fields.nullable name decode = some (some value)) :
    ∃ json, (name, json) ∈ fields ∧ decode json = some value := by
  rw [nullable] at taken
  split at taken
  next => cases taken
  next json _ look =>
    obtain ⟨content, decoded, same⟩ := Option.map_eq_some_iff.1 taken
    exact ⟨json, mem_of_lookup look, Option.some.inj same ▸ decoded⟩
  next => cases taken

end Fields

private theorem mem_of_mapM {α β : Type} {decode : α → Option β} {items : List α} {values : List β}
    (decoded : items.mapM decode = some values) :
    ∀ value ∈ values, ∃ item ∈ items, decode item = some value := by
  induction items generalizing values with
  | nil =>
    cases decoded
    intro value impossible
    cases impossible
  | cons first rest inductionHypothesis =>
    rw [List.mapM_cons] at decoded
    obtain ⟨head, headDecoded, more⟩ := Option.bind_eq_some_iff.1 decoded
    obtain ⟨tail, tailDecoded, same⟩ := Option.bind_eq_some_iff.1 more
    obtain rfl := Option.some.inj same
    intro value listed
    rcases List.mem_cons.1 listed with rfl | inTail
    · exact ⟨first, List.mem_cons_self, headDecoded⟩
    · obtain ⟨item, isItem, itemDecoded⟩ := inductionHypothesis tailDecoded value inTail
      exact ⟨item, List.mem_cons_of_mem _ isItem, itemDecoded⟩

/-- A list is read from an array, element by element. -/
theorem list?_eq_some {α : Type} {decode : Reading → Json → Option α} {reading : Reading}
    {json : Json} {values : List α} (taken : list? decode reading json = some values) :
    ∃ elements inner, json = array elements ∧ reading.enter = some inner ∧
      ∀ value ∈ values, ∃ element ∈ elements, decode inner element = some value := by
  cases json with
  | array elements =>
    obtain ⟨inner, entered, decoded⟩ := Option.bind_eq_some_iff.1 taken
    exact ⟨elements, inner, rfl, entered, mem_of_mapM decoded⟩
  | _ => cases taken

/-! ## Depth of what is decoded -/

/-- What is decoded is written no deeper than it was found. -/
def Shallow {α : Type} (decode : Json → Option α) (encode : α → Json) : Prop :=
  ∀ json value, decode json = some value → (encode value).depth ≤ json.depth

theorem Shallow.list {α : Type} {decode : Json → Option α} {encode : α → Json}
    (shallow : Shallow decode encode) (reading : Reading) :
    Shallow (list? (fun _ => decode) reading) (Json.list encode) := by
  intro json values taken
  obtain ⟨elements, inner, rfl, -, decoded⟩ := list?_eq_some taken
  refine depth_list_le_iff.2 fun value listed => ?_
  obtain ⟨element, isElement, elementDecoded⟩ := decoded value listed
  exact Nat.le_trans (shallow element value elementDecoded)
    (depthOfAll_le_iff.1 (Nat.le_refl _) element isElement)

/-- Fields nest less deeply than the record that has them. -/
theorem depth_le_of_fields? {names : List String} {json : Json} {fields : Fields} {levels : Nat}
    (taken : json.fields? names = some fields) (within : json.depth ≤ levels + 1) :
    ∀ field ∈ fields, field.2.depth ≤ levels := by
  intro field listed
  have inside := depth_lt_of_mem_parts (mem_parts_of_fields? taken listed)
  omega

namespace Fields

variable {α : Type} {fields : Fields} {name : String} {decode : Json → Option α}
  {encode : α → Json} {levels : Nat}

/-- A required field is written no deeper than its record allows. -/
theorem depth_required_le (within : ∀ field ∈ fields, field.2.depth ≤ levels)
    (shallow : Shallow decode encode) {value : α}
    (taken : fields.required name decode = some value) : (encode value).depth ≤ levels := by
  obtain ⟨json, listed, decoded⟩ := required_eq_some taken
  exact Nat.le_trans (shallow json value decoded) (within _ listed)

theorem depth_withDefault_le (within : ∀ field ∈ fields, field.2.depth ≤ levels)
    (shallow : Shallow decode encode) {absent value : α}
    (taken : fields.withDefault name absent decode = some value)
    (absentWithin : (encode absent).depth ≤ levels) : (encode value).depth ≤ levels := by
  rcases withDefault_eq_some taken with rfl | ⟨json, listed, decoded⟩
  · exact absentWithin
  · exact Nat.le_trans (shallow json value decoded) (within _ listed)

theorem depth_nullable_le (within : ∀ field ∈ fields, field.2.depth ≤ levels)
    (shallow : Shallow decode encode) {value : Option α}
    (taken : fields.nullable name decode = some value) :
    (Json.nullable encode value).depth ≤ levels := by
  cases value with
  | none => exact Nat.zero_le _
  | some value =>
    obtain ⟨json, listed, decoded⟩ := nullable_some taken
    exact Nat.le_trans (shallow json value decoded) (within _ listed)

end Fields

end MappingForms.Json
