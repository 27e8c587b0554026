import MappingForms.Proofs.Table
import MappingForms.Proofs.UpdatePlan.Shape

/-!
Contract: by which type a plan classifies the members that it writes.

Owns: the members that the table of path types records, the table as their list, and the law that
a write is classified by its own declared type exactly if no last write of its path overrules it.

The table has one entry for a path. It is filled before anything is planned, from all
constructions of a body, so the branches of a conditional share their entries, and the last
declared type stays. Where all declared types of a path agree, each write has its own.
-/

set_option autoImplicit false

namespace MappingForms

/-! ## The members that the table records -/

namespace PathTypes

open UpdatePlan

/-- A path with a type that is declared for it. -/
structure Entry where
  path : PropertyPath
  declared : TypeRef

mutual

/-- The member paths of a value that is stored at a path, in the order in which they are
recorded. -/
def recorded (path : PropertyPath) : Expr → List Entry
  | .construct _ _ initializers => recordedMembers path initializers
  | .conditional _ whenTrue whenFalse _ => recorded path whenTrue ++ recorded path whenFalse
  | _ => []
termination_by structural value => value

@[inherit_doc recorded]
def recordedMembers (parent : PropertyPath) : List Initializer → List Entry
  | [] => []
  | ⟨name, declared, value⟩ :: rest =>
    (⟨parent.child name, declared⟩ :: recorded (parent.child name) value) ++
      recordedMembers parent rest
termination_by structural initializers => initializers

end

/-- The entry of a write and the entries that are recorded below it. -/
def recordedFrom (write : MemberWrite) : List Entry :=
  ⟨write.path, write.declared⟩ :: recorded write.path write.value

private theorem recordedMembers_eq_flatMap (path : PropertyPath) (initializers : List Initializer) :
    recordedMembers path initializers =
      initializers.flatMap fun initializer => recordedFrom ⟨path, initializer⟩ := by
  induction initializers with
  | nil => rfl
  | cons first rest inductionHypothesis =>
    obtain ⟨name, declared, value⟩ := first
    rw [recordedMembers, inductionHypothesis, List.flatMap_cons]
    rfl

def record (context : NullableContext) (types : PathTypes) (entry : Entry) : PathTypes :=
  types.insert entry.path (.ofType entry.declared context)

variable (context : NullableContext)

private theorem addInitializers_eq_foldl (path : PropertyPath) (types : PathTypes)
    {initializers : List Initializer}
    (values : ∀ initializer ∈ initializers, ∀ path types,
      addValue context path types initializer.value =
        (recorded path initializer.value).foldl (record context) types) :
    addInitializers context path types initializers =
      (recordedMembers path initializers).foldl (record context) types := by
  induction initializers generalizing types with
  | nil => rfl
  | cons first rest inductionHypothesis =>
    obtain ⟨firstValue, restValues⟩ := List.forall_mem_cons.1 values
    obtain ⟨name, declared, value⟩ := first
    rw [addInitializers, recordedMembers, List.foldl_append, List.foldl_cons,
      inductionHypothesis _ restValues]
    exact congrArg (List.foldl (record context) · (recordedMembers path rest)) (firstValue _ _)

private theorem addValue_eq_foldl (path : PropertyPath) (types : PathTypes) (value : Expr) :
    addValue context path types value = (recorded path value).foldl (record context) types := by
  induction value using Expr.induction_on_children generalizing path types with
  | step value inductionHypothesis =>
    cases value with
    | construct type arguments initializers =>
      rw [addValue, recorded]
      apply addInitializers_eq_foldl
      intro initializer listed
      exact inductionHypothesis _ (List.mem_append_right _ (List.mem_map_of_mem listed))
    | conditional condition whenTrue whenFalse type =>
      rw [addValue, recorded, List.foldl_append,
        inductionHypothesis whenTrue (by simp [Expr.children]),
        inductionHypothesis whenFalse (by simp [Expr.children])]
    | _ => rfl

end PathTypes

namespace UpdatePlan

open PathTypes

/-- What the table would record for a write. -/
def MemberWrite.entry (write : MemberWrite) : Entry := ⟨write.path, write.declared⟩

/-- The destination and the members that a body writes, as the table records them. -/
def recordedFor (spec : Specification) (body : Expr) : List Entry :=
  ⟨rootOf spec, spec.returnType⟩ :: recorded (rootOf spec) body

/-- Everything that is reached is recorded. -/
theorem Reaches.mem_recorded {setting : Setting} {path : PropertyPath} {info : PathInfo}
    {value : Expr} {inner : MemberWrite} (reaches : Reaches setting path info value inner) :
    inner.entry ∈ recorded path value := by
  induction reaches with
  | member _ listed =>
    rw [recorded, recordedMembers_eq_flatMap]
    exact List.mem_flatMap.2 ⟨_, listed, List.mem_cons_self⟩
  | nested _ listed _ _ inValue =>
    rw [recorded, recordedMembers_eq_flatMap]
    exact List.mem_flatMap.2 ⟨_, listed, List.mem_cons_of_mem _ inValue⟩
  | inTrue _ _ inBranch =>
    rw [recorded]
    exact List.mem_append_left _ inBranch
  | inFalse _ _ inBranch =>
    rw [recorded]
    exact List.mem_append_right _ inBranch

private theorem mem_recordedFrom_of_mem_reachedFrom {setting : Setting} {write inner : MemberWrite}
    (isReached : inner ∈ reachedFrom setting write) : inner.entry ∈ recordedFrom write := by
  rcases mem_reachedFrom_iff.1 isReached with rfl | ⟨-, inValue⟩
  · exact List.mem_cons_self
  · exact List.mem_cons_of_mem _ (reaches_of_mem_reached inValue).mem_recorded

/-- The table records every write that a plan reaches. -/
theorem mem_recordedFor_of_mem_reachedFor {spec : Specification} {body : Expr}
    {context : NullableContext} {write : MemberWrite}
    (isReached : write ∈ reachedFor spec body context) : write.entry ∈ recordedFor spec body := by
  cases body with
  | construct type arguments initializers =>
    obtain ⟨initializer, listed, fromInitializer⟩ := mem_reachedFor_construct.1 isReached
    apply List.mem_cons_of_mem
    rw [recorded, recordedMembers_eq_flatMap]
    exact List.mem_flatMap.2 ⟨initializer, listed,
      mem_recordedFrom_of_mem_reachedFrom fromInitializer⟩
  | _ => cases isReached

/-! ## The last entry of a path -/

/-- The last of some entries that concern a path. -/
def LastAt (entries : List Entry) (path : PropertyPath) (last : Entry) : Prop :=
  last.path = path ∧
    ∃ before after, entries = before ++ last :: after ∧ ∀ later ∈ after, later.path ≠ path

private theorem find?_reverse_eq_some_iff {entries : List Entry} {path : PropertyPath}
    {last : Entry} :
    entries.reverse.find? (·.path = path) = some last ↔ LastAt entries path last := by
  rw [List.find?_eq_some_iff_append, LastAt, decide_eq_true_iff]
  refine and_congr_right fun _ => ?_
  constructor
  · rintro ⟨after, before, isReverse, others⟩
    refine ⟨before.reverse, after.reverse, ?_, ?_⟩
    · rw [← List.reverse_reverse entries, isReverse]
      simp
    · simpa using others
  · rintro ⟨before, after, rfl, others⟩
    exact ⟨after.reverse, before.reverse, by simp, by simpa using others⟩

/-- Among the entries of a path there is a last one. -/
theorem exists_lastAt {entries : List Entry} {entry : Entry}
    (listed : entry ∈ entries) : ∃ last ∈ entries, LastAt entries entry.path last := by
  have found : (entries.reverse.find? (·.path = entry.path)).isSome := by
    rw [List.find?_isSome]
    exact ⟨entry, List.mem_reverse.2 listed, by simp⟩
  obtain ⟨last, isFound⟩ := Option.isSome_iff_exists.1 found
  exact ⟨last, List.mem_reverse.1 (List.mem_of_find?_eq_some isFound),
    find?_reverse_eq_some_iff.1 isFound⟩

/-- The last entry of the same path is declared with a type that is classified otherwise. -/
def Overruled (context : NullableContext) (entries : List Entry) (entry : Entry) :
    Prop :=
  ∃ last, LastAt entries entry.path last ∧
    PathInfo.ofType last.declared context ≠ PathInfo.ofType entry.declared context

/-- Nothing is overruled exactly if the entries of one path are classified alike. -/
theorem forall_not_overruled_iff {context : NullableContext} {entries : List Entry} :
    (∀ entry ∈ entries, ¬Overruled context entries entry) ↔
      ∀ first ∈ entries, ∀ second ∈ entries, first.path = second.path →
        PathInfo.ofType first.declared context = PathInfo.ofType second.declared context := by
  constructor
  · intro noneOverruled first firstListed second secondListed samePath
    obtain ⟨last, -, isLast⟩ := exists_lastAt firstListed
    have firstAlike := not_exists.1 (noneOverruled first firstListed) last
    have secondAlike := not_exists.1 (noneOverruled second secondListed) last
    rw [← samePath] at secondAlike
    simp only [isLast, true_and, not_not] at firstAlike secondAlike
    rw [← firstAlike, secondAlike]
  · rintro alike entry listed ⟨last, ⟨samePath, before, after, isSplit, -⟩, different⟩
    have lastListed : last ∈ entries := by
      rw [isSplit]
      exact List.mem_append_right _ List.mem_cons_self
    exact different (alike last lastListed entry listed samePath)

/-! ## Classification -/

section Plan

variable {spec : Specification} {body : Expr} {context : NullableContext}

private theorem get?_types (path : PropertyPath) :
    (settingOf spec body context).types.get? path =
      ((recordedFor spec body).reverse.find? (·.path = path)).map fun last =>
        PathInfo.ofType last.declared context := by
  -- The destination is recorded first, so the table starts without entries.
  have typesEq : (settingOf spec body context).types =
      (recordedFor spec body).foldl (record context) ∅ :=
    addValue_eq_foldl context _ _ body
  rw [typesEq]
  unfold record
  rw [Table.get?_foldl_insert, Table.get?_empty, Option.or_none]

/-- A path is classified by the last entry of it. -/
theorem get?_types_eq_some_iff {path : PropertyPath} {info : PathInfo} :
    (settingOf spec body context).types.get? path = some info ↔
      ∃ last, LastAt (recordedFor spec body) path last ∧
        PathInfo.ofType last.declared context = info := by
  rw [get?_types, Option.map_eq_some_iff]
  simp only [find?_reverse_eq_some_iff]

private theorem infoOf_eq_iff (write : MemberWrite) :
    (settingOf spec body context).infoOf write = .ofType write.declared context ↔
      ¬Overruled context (recordedFor spec body) write.entry := by
  unfold Setting.infoOf Overruled MemberWrite.entry
  rw [get?_types]
  simp only [← find?_reverse_eq_some_iff]
  cases (recordedFor spec body).reverse.find? (·.path = write.path) with
  -- Nothing overrules a write of a path that is not recorded: the planner falls back to its type.
  | none => simp [settingOf]
  | some last => simp

end Plan

/-! ## Statements from declared types -/

/-- The setting in which every write is classified by its own declared type. -/
def ownTypes (collections : CollectionPolicy) (context : NullableContext) : Setting where
  types := ∅
  collections := collections
  context := context

section Congruence

variable {setting other : Setting}

private theorem skips_congr (samePolicy : setting.collections = other.collections)
    {write : MemberWrite} (sameInfo : setting.infoOf write = other.infoOf write) :
    setting.skips write = other.skips write := by
  unfold Setting.skips
  rw [sameInfo, samePolicy]

private theorem storeMember_congr_of (samePolicy : setting.collections = other.collections)
    {write : MemberWrite}
    (sameInfos : ∀ inner ∈ reachedFrom setting write,
      setting.infoOf inner = other.infoOf inner)
    (value : setting.skips write = false →
      (∀ inner ∈ reached setting write.path (setting.infoOf write) write.value,
        setting.infoOf inner = other.infoOf inner) →
      storeValue setting write.path (setting.infoOf write) write.value =
        storeValue other write.path (setting.infoOf write) write.value) :
    storeMember setting write.parent write.initializer =
      storeMember other write.parent write.initializer := by
  have sameInfo := sameInfos write (mem_reachedFrom_self setting write)
  have sameSkip := skips_congr samePolicy sameInfo
  cases skipped : setting.skips write with
  | true => rw [storeMember_of_skipped skipped, storeMember_of_skipped (sameSkip ▸ skipped)]
  | false =>
    rw [storeMember_of_not_skipped skipped, storeMember_of_not_skipped (sameSkip ▸ skipped),
      ← sameInfo]
    exact value skipped fun inner inValue =>
      sameInfos inner (mem_reachedFrom_iff.2 (.inr ⟨skipped, inValue⟩))

/-- The statements for a value depend on the classification of the writes that it reaches, and on
nothing else of the table. -/
theorem storeValue_congr (samePolicy : setting.collections = other.collections)
    (path : PropertyPath) (info : PathInfo) (value : Expr)
    (sameInfos : ∀ write ∈ reached setting path info value,
      setting.infoOf write = other.infoOf write) :
    storeValue setting path info value = storeValue other path info value := by
  induction path, info, value using induction_on_storing setting with
  | construct path info type arguments initializers inPlace inductionHypothesis =>
    rw [reached_construct setting path arguments inPlace] at sameInfos
    rw [storeValue_construct setting path arguments inPlace,
      storeValue_construct other path arguments inPlace]
    -- The creation depends on the path of the construction only, which both settings share.
    congr 1
    apply List.flatMap_congr
    intro initializer listed
    have fromMember : ∀ inner ∈ reachedFrom setting ⟨path, initializer⟩,
        setting.infoOf inner = other.infoOf inner :=
      fun inner isReached => sameInfos inner (List.mem_flatMap.2 ⟨initializer, listed, isReached⟩)
    exact storeMember_congr_of samePolicy fromMember (inductionHypothesis initializer listed)
  | conditional path info condition whenTrue whenFalse type expands trueHypothesis
      falseHypothesis =>
    rw [reached_conditional setting path expands] at sameInfos
    obtain ⟨sameTrue, sameFalse⟩ := List.forall_mem_append.1 sameInfos
    rw [storeValue_conditional setting path expands, storeValue_conditional other path expands,
      trueHypothesis sameTrue, falseHypothesis sameFalse]
  | raise => rfl
  | whole path info value assigned =>
    rw [storeValue_of_isAssigned setting path assigned,
      storeValue_of_isAssigned other path assigned]

private theorem storeMember_congr (samePolicy : setting.collections = other.collections)
    {write : MemberWrite}
    (sameInfos : ∀ inner ∈ reachedFrom setting write,
      setting.infoOf inner = other.infoOf inner) :
    storeMember setting write.parent write.initializer =
      storeMember other write.parent write.initializer :=
  storeMember_congr_of samePolicy sameInfos fun _ => storeValue_congr samePolicy _ _ _

end Congruence

section Plan

variable {spec : Specification} {body : Expr} {context : NullableContext}

private theorem skips_iff_of_not_overruled {write : MemberWrite}
    (ownType : ¬Overruled context (recordedFor spec body) write.entry) :
    (settingOf spec body context).skips write = true ↔
      spec.options.collections = .skip ∧
        (write.declared.shape = .collection ∨ write.value.type.shape = .collection) := by
  rw [Setting.skips_iff, (infoOf_eq_iff write).2 ownType, PathInfo.isCollection_ofType,
    beq_iff_eq]
  rfl

/-- A planned member is classified by its own declared type, unless the last entry of its path
overrules it.

The statements of every write that a plan reaches, at any depth, stand in the plan. The write is
classified by its own declared type exactly if it is not overruled, and it is then skipped
exactly if collections are skipped and its declared type or the type of its value is one. If
nothing is overruled that storing a value reaches, the statements for the value follow from the
value and the declared types in it, so those of a branch do not depend on the other branch.
Nothing is overruled at all exactly if the entries of one path are classified alike. -/
theorem own_type_classifies_iff_not_overruled {plan : UpdatePlan}
    (planned : ofBody spec body context = .ok plan) :
    (∀ write ∈ reachedFor spec body context,
      PartOf (storeMember (settingOf spec body context) write.parent write.initializer)
        plan.statements ∧
      ((settingOf spec body context).infoOf write = .ofType write.declared context ↔
        ¬Overruled context (recordedFor spec body) write.entry) ∧
      (¬Overruled context (recordedFor spec body) write.entry →
        ((settingOf spec body context).skips write = true ↔
          spec.options.collections = .skip ∧
            (write.declared.shape = .collection ∨ write.value.type.shape = .collection))) ∧
      ((∀ inner ∈ reachedFrom (settingOf spec body context) write,
          ¬Overruled context (recordedFor spec body) inner.entry) →
        storeMember (settingOf spec body context) write.parent write.initializer =
          storeMember (ownTypes spec.options.collections context) write.parent
            write.initializer)) ∧
    (∀ path info value,
      (∀ inner ∈ reached (settingOf spec body context) path info value,
        ¬Overruled context (recordedFor spec body) inner.entry) →
      storeValue (settingOf spec body context) path info value =
        storeValue (ownTypes spec.options.collections context) path info value) ∧
    ((∀ entry ∈ recordedFor spec body, ¬Overruled context (recordedFor spec body) entry) ↔
      ∀ first ∈ recordedFor spec body, ∀ second ∈ recordedFor spec body,
        first.path = second.path →
          PathInfo.ofType first.declared context = PathInfo.ofType second.declared context) := by
  refine ⟨fun write isReached => ⟨partOf_plan planned isReached, infoOf_eq_iff write,
    skips_iff_of_not_overruled, fun ownTyped => ?_⟩, fun path info value ownTyped => ?_,
    forall_not_overruled_iff⟩
  · apply storeMember_congr
    · rfl
    · exact fun inner inWrite => (infoOf_eq_iff inner).2 (ownTyped inner inWrite)
  · apply storeValue_congr
    · rfl
    · exact fun inner inValue => (infoOf_eq_iff inner).2 (ownTyped inner inValue)

end Plan

end UpdatePlan

namespace MailUpdate

open UpdatePlan

def contentPath : PropertyPath := ⟨"dest", ["Body", "Content"]⟩

def textWrite : MemberWrite :=
  ⟨⟨"dest", ["Body"]⟩, ⟨"Content", .string, read "Text" .string⟩⟩

def linesEntry : PathTypes.Entry := ⟨contentPath, .strings⟩

def withoutBody : Expr := .literal .null bodyType

/-- The text is overruled by the lines of the other branch. Without them it is classified by its
own type, and not skipped. -/
theorem text_is_classified_by_lines :
    (textWrite ∈ reachedFor spec (body asLines) .enabled ∧
      (settingOf spec (body asLines) .enabled).infoOf textWrite ≠ .ofType .string .enabled) ∧
    (textWrite ∈ reachedFor spec (body withoutBody) .enabled ∧
      (settingOf spec (body withoutBody) .enabled).infoOf textWrite = .ofType .string .enabled ∧
      (settingOf spec (body withoutBody) .enabled).skips textWrite = false) := by
  constructor
  · obtain ⟨plan, planned⟩ : ∃ plan, ofBody spec (body asLines) .enabled = .ok plan := ⟨_, rfl⟩
    have isReached : textWrite ∈ reachedFor spec (body asLines) .enabled :=
      .tail _ (.head _)
    have isOverruled : Overruled .enabled (recordedFor spec (body asLines)) textWrite.entry :=
      ⟨linesEntry, find?_reverse_eq_some_iff.1 rfl, by decide⟩
    obtain ⟨-, classified, -⟩ :=
      (own_type_classifies_iff_not_overruled planned).1 textWrite isReached
    exact ⟨isReached, fun ownType => classified.1 ownType isOverruled⟩
  · obtain ⟨plan, planned⟩ : ∃ plan, ofBody spec (body withoutBody) .enabled = .ok plan :=
      ⟨_, rfl⟩
    obtain ⟨ofReached, -, noneOverruled⟩ := own_type_classifies_iff_not_overruled planned
    have isReached : textWrite ∈ reachedFor spec (body withoutBody) .enabled :=
      .tail _ (.head _)
    have ownType : ¬Overruled .enabled (recordedFor spec (body withoutBody)) textWrite.entry :=
      noneOverruled.2 (by decide) textWrite.entry (.tail _ (.tail _ (.head _)))
    obtain ⟨-, classified, skipped, -⟩ := ofReached textWrite isReached
    refine ⟨isReached, classified.2 ownType, Bool.eq_false_iff.2 fun isSkipped => ?_⟩
    rcases ((skipped ownType).1 isSkipped).2 with isCollection | isCollection <;> cases isCollection

/-- The text is left out, though no type of it is a collection, because the other branch writes
one to the same path. If the other branch writes nothing, the text is written. -/
theorem text_is_skipped_for_lines :
    (settingOf spec (body asLines) .enabled).infoOf textWrite ≠
      .ofType textWrite.declared .enabled ∧
    (textWrite.declared.shape ≠ .collection ∧ textWrite.value.type.shape ≠ .collection) ∧
    (∃ plan otherwise, ofBody spec (body asLines) .enabled = .ok plan ∧
      .branch (read "IsText" .boolean)
        [.ensureCreated ⟨"dest", ["Body"]⟩ (.construct textBodyType [] []),
          .comment (skipNote contentPath)] otherwise ∈ plan.statements) ∧
    ∃ plan otherwise, ofBody spec (body withoutBody) .enabled = .ok plan ∧
      .branch (read "IsText" .boolean)
        [.ensureCreated ⟨"dest", ["Body"]⟩ (.construct textBodyType [] []),
          .assign contentPath (read "Text" .string)] otherwise ∈ plan.statements :=
  ⟨by decide, by decide, ⟨_, _, rfl, .tail _ (.tail _ (.head _))⟩,
    ⟨_, _, rfl, .tail _ (.tail _ (.head _))⟩⟩

end MailUpdate

end MappingForms
