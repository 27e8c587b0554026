import MappingForms.Proofs.Expr.Children
import MappingForms.UpdatePlan

/-!
Contract: the member writes that an update plan consists of.

Owns: the statements of one write, the writes that a plan reaches, induction over the values that
a plan stores, and the parts of a plan.

A value is stored in one of four ways: a construction member by member, a conditional branch by
branch, an exception as a throw, and everything else by one assignment. A plan reaches the
writes of the constructions that it stores member by member, also below other writes, but not
below a write that it skips.
-/

set_option autoImplicit false

namespace MappingForms

namespace Statement

theorem nodesOfAll_append (first second : List Statement) :
    nodesOfAll (first ++ second) = nodesOfAll first ++ nodesOfAll second := by
  induction first with
  | nil => rfl
  | cons statement rest inductionHypothesis =>
    rw [List.cons_append, nodesOfAll, nodesOfAll, inductionHypothesis, List.append_assoc]

theorem nodesOfAll_flatMap {α : Type} (items : List α) (statements : α → List Statement) :
    nodesOfAll (items.flatMap statements) =
      items.flatMap fun item => nodesOfAll (statements item) := by
  induction items with
  | nil => rfl
  | cons first rest inductionHypothesis =>
    rw [List.flatMap_cons, nodesOfAll_append, inductionHypothesis, List.flatMap_cons]

theorem nodesOfAll_singleton (statement : Statement) :
    nodesOfAll [statement] = statement.nodes :=
  List.append_nil _

theorem nodesOfAll_ite (present : Bool) (statement : Statement) :
    nodesOfAll (if present then [statement] else []) =
      if present then statement.nodes else [] := by
  cases present
  · rfl
  · exact nodesOfAll_singleton statement

end Statement

namespace PathInfo

theorem isValue_ofType (type : TypeRef) (context : NullableContext) :
    (PathInfo.ofType type context).isValue = type.isValue := by
  obtain ⟨name, shape, nullable, constructible⟩ := type
  cases shape <;> cases nullable <;> cases context <;> rfl

theorem isCollection_ofType (type : TypeRef) (context : NullableContext) :
    (PathInfo.ofType type context).isCollection = (type.shape == .collection) := by
  obtain ⟨name, shape, nullable, constructible⟩ := type
  cases shape <;> cases nullable <;> cases context <;> rfl

theorem isString_ofType (type : TypeRef) (context : NullableContext) :
    (PathInfo.ofType type context).isString = (type.shape == .string) := by
  obtain ⟨name, shape, nullable, constructible⟩ := type
  cases shape <;> cases nullable <;> cases context <;> rfl

end PathInfo

namespace UpdatePlan

/-- A write is skipped only under the policy to skip collections, by what is known about its path
or by the type of its own value. -/
theorem Setting.skips_iff {setting : Setting} {write : MemberWrite} :
    setting.skips write = true ↔
      setting.collections = .skip ∧
        ((setting.infoOf write).isCollection = true ∨ write.value.type.shape = .collection) := by
  rw [skips, Bool.and_comm]
  simp only [Bool.and_eq_true, Bool.or_eq_true, beq_iff_eq]

/-- A skipped write leaves its note and nothing else. -/
theorem storeMember_of_skipped {setting : Setting} {write : MemberWrite}
    (skipped : setting.skips write = true) :
    storeMember setting write.parent write.initializer = [.comment (skipNote write.path)] := by
  obtain ⟨parent, name, declared, value⟩ := write
  exact if_pos skipped

/-- A write that is not skipped stores its value at its path. -/
theorem storeMember_of_not_skipped {setting : Setting} {write : MemberWrite}
    (notSkipped : setting.skips write = false) :
    storeMember setting write.parent write.initializer =
      storeValue setting write.path (setting.infoOf write) write.value := by
  obtain ⟨parent, name, declared, value⟩ := write
  exact if_neg (Bool.eq_false_iff.1 notSkipped)

/-- The statement that creates a missing object, where one is planned. -/
def creationOf (creates : Bool) (path : PropertyPath) (type : TypeRef) (arguments : List Expr) :
    List Statement :=
  if creates then [.ensureCreated path (.construct type arguments [])] else []

/-- Whether a value is stored by one assignment: neither member by member, nor branch by branch,
nor by a throw. -/
def isAssigned (info : PathInfo) : Expr → Bool
  | .construct type _ initializers => !(isExpandable type initializers && !info.isValue)
  | .conditional condition whenTrue whenFalse type =>
    !expandsConditional (.conditional condition whenTrue whenFalse type) info
  | .raise .. => false
  | _ => true

theorem isAssigned_construct_iff {info : PathInfo} {type : TypeRef} {arguments : List Expr}
    {initializers : List Initializer} :
    isAssigned info (.construct type arguments initializers) = true ↔
      ¬(isExpandable type initializers && !info.isValue) = true := by
  rw [isAssigned, Bool.not_eq_true', Bool.not_eq_true]

theorem isAssigned_conditional_iff {info : PathInfo} {condition whenTrue whenFalse : Expr}
    {type : TypeRef} :
    isAssigned info (.conditional condition whenTrue whenFalse type) = true ↔
      ¬expandsConditional (.conditional condition whenTrue whenFalse type) info = true := by
  rw [isAssigned, Bool.not_eq_true', Bool.not_eq_true]

mutual

/-- The writes that storing a value at a path reaches, in the order of their statements. -/
def reached (setting : Setting) (path : PropertyPath) (info : PathInfo) :
    Expr → List MemberWrite
  | .construct type _ initializers =>
    if isExpandable type initializers && !info.isValue then
      reachedMembers setting path initializers
    else
      []
  | .conditional condition whenTrue whenFalse type =>
    if expandsConditional (.conditional condition whenTrue whenFalse type) info then
      reached setting path info whenTrue ++ reached setting path info whenFalse
    else
      []
  | _ => []
termination_by structural value => value

@[inherit_doc reached]
def reachedMembers (setting : Setting) (parent : PropertyPath) :
    List Initializer → List MemberWrite
  | [] => []
  | ⟨name, declared, value⟩ :: rest =>
    let write : MemberWrite := ⟨parent, ⟨name, declared, value⟩⟩
    (write :: if setting.skips write then []
      else reached setting write.path (setting.infoOf write) value) ++
      reachedMembers setting parent rest
termination_by structural initializers => initializers

end

/-- A write and the writes that are reached below it. -/
def reachedFrom (setting : Setting) (write : MemberWrite) : List MemberWrite :=
  write :: if setting.skips write then []
    else reached setting write.path (setting.infoOf write) write.value

theorem mem_reachedFrom_self (setting : Setting) (write : MemberWrite) :
    write ∈ reachedFrom setting write :=
  List.mem_cons_self

/-- A write reaches itself, and what its value reaches unless it is skipped. -/
theorem mem_reachedFrom_iff {setting : Setting} {write inner : MemberWrite} :
    inner ∈ reachedFrom setting write ↔
      inner = write ∨ setting.skips write = false ∧
        inner ∈ reached setting write.path (setting.infoOf write) write.value := by
  unfold reachedFrom
  cases setting.skips write <;> simp

section Storing

variable (setting : Setting) (path : PropertyPath) (info : PathInfo)

/-- Members are written one after the other. -/
theorem storeMembers_eq_flatMap (initializers : List Initializer) :
    storeMembers setting path initializers =
      initializers.flatMap (storeMember setting path) := by
  induction initializers with
  | nil => rfl
  | cons first rest inductionHypothesis =>
    rw [storeMembers, inductionHypothesis, List.flatMap_cons]

theorem reachedMembers_eq_flatMap (initializers : List Initializer) :
    reachedMembers setting path initializers =
      initializers.flatMap fun initializer => reachedFrom setting ⟨path, initializer⟩ := by
  induction initializers with
  | nil => rfl
  | cons first rest inductionHypothesis =>
    obtain ⟨name, declared, value⟩ := first
    rw [reachedMembers, inductionHypothesis, List.flatMap_cons]
    rfl

variable {info} {type : TypeRef} (arguments : List Expr) {initializers : List Initializer}

/-- A construction that is written in place is created if need be and then written member by
member. -/
theorem storeValue_construct (inPlace : (isExpandable type initializers && !info.isValue) = true) :
    storeValue setting path info (.construct type arguments initializers) =
      creationOf info.needsCreation path type arguments ++
        initializers.flatMap (storeMember setting path) := by
  rw [storeValue, if_pos inPlace, storeMembers_eq_flatMap]
  rfl

/-- A construction that is written in place reaches its members and what they reach. -/
theorem reached_construct (inPlace : (isExpandable type initializers && !info.isValue) = true) :
    reached setting path info (.construct type arguments initializers) =
      initializers.flatMap fun initializer => reachedFrom setting ⟨path, initializer⟩ := by
  rw [reached, if_pos inPlace, reachedMembers_eq_flatMap]

variable {condition whenTrue whenFalse : Expr}

/-- A conditional that is expanded becomes a branch with the statements of its two sides. -/
theorem storeValue_conditional
    (expands : expandsConditional (.conditional condition whenTrue whenFalse type) info = true) :
    storeValue setting path info (.conditional condition whenTrue whenFalse type) =
      [.branch condition (storeValue setting path info whenTrue)
        (storeValue setting path info whenFalse)] := by
  rw [storeValue, if_pos expands]

/-- A conditional that is expanded reaches what its two sides reach. -/
theorem reached_conditional
    (expands : expandsConditional (.conditional condition whenTrue whenFalse type) info = true) :
    reached setting path info (.conditional condition whenTrue whenFalse type) =
      reached setting path info whenTrue ++ reached setting path info whenFalse := by
  rw [reached, if_pos expands]

/-- A value that is stored as a whole is one assignment. -/
theorem storeValue_of_isAssigned {value : Expr} (assigned : isAssigned info value = true) :
    storeValue setting path info value = [.assign path value] := by
  cases value with
  | construct => rw [storeValue, if_neg (isAssigned_construct_iff.1 assigned)]
  | conditional => rw [storeValue, if_neg (isAssigned_conditional_iff.1 assigned)]
  | raise => cases assigned
  | _ => rfl

theorem reached_of_isAssigned {value : Expr} (assigned : isAssigned info value = true) :
    reached setting path info value = [] := by
  cases value with
  | construct => rw [reached, if_neg (isAssigned_construct_iff.1 assigned)]
  | conditional => rw [reached, if_neg (isAssigned_conditional_iff.1 assigned)]
  | _ => rfl

end Storing

/-- Induction over the values that a plan stores, with a case for each way of storing. Which way
it is depends on the value and on what is known about its path. -/
theorem induction_on_storing (setting : Setting) {motive : PropertyPath → PathInfo → Expr → Prop}
    (construct : ∀ path info type arguments initializers,
      (isExpandable type initializers && !info.isValue) = true →
      (∀ initializer ∈ initializers, setting.skips ⟨path, initializer⟩ = false →
        motive (path.child initializer.member) (setting.infoOf ⟨path, initializer⟩)
          initializer.value) →
      motive path info (.construct type arguments initializers))
    (conditional : ∀ path info condition whenTrue whenFalse type,
      expandsConditional (.conditional condition whenTrue whenFalse type) info = true →
      motive path info whenTrue → motive path info whenFalse →
      motive path info (.conditional condition whenTrue whenFalse type))
    (raise : ∀ path info exception type, motive path info (.raise exception type))
    (whole : ∀ path info value, isAssigned info value = true → motive path info value)
    (path : PropertyPath) (info : PathInfo) (value : Expr) : motive path info value := by
  induction value using Expr.induction_on_children generalizing path info with
  | step value inductionHypothesis =>
    cases value with
    | construct type arguments initializers =>
      by_cases inPlace : (isExpandable type initializers && !info.isValue) = true
      · apply construct path info type arguments initializers inPlace
        intro initializer listed _
        exact inductionHypothesis _ (List.mem_append_right _ (List.mem_map_of_mem listed)) _ _
      · exact whole path info _ (isAssigned_construct_iff.2 inPlace)
    | conditional condition whenTrue whenFalse type =>
      by_cases expands :
          expandsConditional (.conditional condition whenTrue whenFalse type) info = true
      · apply conditional path info condition whenTrue whenFalse type expands
        · exact inductionHypothesis whenTrue (by simp [Expr.children]) path info
        · exact inductionHypothesis whenFalse (by simp [Expr.children]) path info
      · exact whole path info _ (isAssigned_conditional_iff.2 expands)
    | raise exception type => exact raise path info exception type
    | _ => exact whole path info _ rfl

/-- How storing a value reaches a write: as a member of a construction that is written in place,
below such a member, or in a branch of a conditional. -/
inductive Reaches (setting : Setting) : PropertyPath → PathInfo → Expr → MemberWrite → Prop where
  | member {path : PropertyPath} {info : PathInfo} {type : TypeRef} {arguments : List Expr}
      {initializers : List Initializer} {initializer : Initializer}
      (inPlace : (isExpandable type initializers && !info.isValue) = true)
      (listed : initializer ∈ initializers) :
      Reaches setting path info (.construct type arguments initializers) ⟨path, initializer⟩
  | nested {path : PropertyPath} {info : PathInfo} {type : TypeRef} {arguments : List Expr}
      {initializers : List Initializer} {initializer : Initializer} {inner : MemberWrite}
      (inPlace : (isExpandable type initializers && !info.isValue) = true)
      (listed : initializer ∈ initializers)
      (notSkipped : setting.skips ⟨path, initializer⟩ = false)
      (inValue : Reaches setting (path.child initializer.member)
        (setting.infoOf ⟨path, initializer⟩) initializer.value inner) :
      Reaches setting path info (.construct type arguments initializers) inner
  | inTrue {path : PropertyPath} {info : PathInfo} {condition whenTrue whenFalse : Expr}
      {type : TypeRef} {inner : MemberWrite}
      (expands : expandsConditional (.conditional condition whenTrue whenFalse type) info = true)
      (inBranch : Reaches setting path info whenTrue inner) :
      Reaches setting path info (.conditional condition whenTrue whenFalse type) inner
  | inFalse {path : PropertyPath} {info : PathInfo} {condition whenTrue whenFalse : Expr}
      {type : TypeRef} {inner : MemberWrite}
      (expands : expandsConditional (.conditional condition whenTrue whenFalse type) info = true)
      (inBranch : Reaches setting path info whenFalse inner) :
      Reaches setting path info (.conditional condition whenTrue whenFalse type) inner

/-- What is listed as reached is reached step by step. -/
theorem reaches_of_mem_reached {setting : Setting} {path : PropertyPath} {info : PathInfo}
    {value : Expr} {inner : MemberWrite} (isReached : inner ∈ reached setting path info value) :
    Reaches setting path info value inner := by
  induction path, info, value using induction_on_storing setting with
  | construct path info type arguments initializers inPlace inductionHypothesis =>
    rw [reached_construct setting path arguments inPlace] at isReached
    obtain ⟨initializer, listed, fromWrite⟩ := List.mem_flatMap.1 isReached
    rcases mem_reachedFrom_iff.1 fromWrite with rfl | ⟨notSkipped, inValue⟩
    · exact .member inPlace listed
    · exact .nested inPlace listed notSkipped
        (inductionHypothesis initializer listed notSkipped inValue)
  | conditional path info condition whenTrue whenFalse type expands trueHypothesis
      falseHypothesis =>
    rw [reached_conditional setting path expands] at isReached
    rcases List.mem_append.1 isReached with isTrue | isFalse
    · exact .inTrue expands (trueHypothesis isTrue)
    · exact .inFalse expands (falseHypothesis isFalse)
  | raise => cases isReached
  | whole path info value assigned =>
    rw [reached_of_isAssigned setting path assigned] at isReached
    cases isReached

/-! ## Where the statements of a write stand -/

/-- Some statements stand next to each other in a list, or in a branch below it. -/
inductive PartOf (part : List Statement) : List Statement → Prop where
  | here (before after : List Statement) : PartOf part (before ++ part ++ after)
  | inThen {statements thenDo otherwise : List Statement} {condition : Expr}
      (listed : .branch condition thenDo otherwise ∈ statements) (below : PartOf part thenDo) :
      PartOf part statements
  | inOtherwise {statements thenDo otherwise : List Statement} {condition : Expr}
      (listed : .branch condition thenDo otherwise ∈ statements) (below : PartOf part otherwise) :
      PartOf part statements

namespace PartOf

variable {part statements : List Statement}

theorem refl (part : List Statement) : PartOf part part := by
  have atOnce : PartOf part ([] ++ part ++ []) := .here [] []
  rwa [List.nil_append, List.append_nil] at atOnce

theorem append (isPart : PartOf part statements) (before after : List Statement) :
    PartOf part (before ++ statements ++ after) := by
  cases isPart with
  | here left right =>
    have wider : PartOf part ((before ++ left) ++ part ++ (right ++ after)) := .here _ _
    simpa only [List.append_assoc] using wider
  | inThen listed below =>
    exact .inThen (List.mem_append_left _ (List.mem_append_right _ listed)) below
  | inOtherwise listed below =>
    exact .inOtherwise (List.mem_append_left _ (List.mem_append_right _ listed)) below

theorem append_left (isPart : PartOf part statements) (before : List Statement) :
    PartOf part (before ++ statements) := by
  have wider := isPart.append before []
  rwa [List.append_nil] at wider

/-- A part of the statements of an item is a part of those of all items. -/
theorem flatMap {α : Type} {items : List α} {item : α} {statementsOf : α → List Statement}
    (isPart : PartOf part (statementsOf item)) (listed : item ∈ items) :
    PartOf part (items.flatMap statementsOf) := by
  obtain ⟨before, after, rfl⟩ := List.append_of_mem listed
  rw [List.flatMap_append, List.flatMap_cons, ← List.append_assoc]
  exact isPart.append _ _

end PartOf

private theorem partOf_storeValue {setting : Setting} {path : PropertyPath} {info : PathInfo}
    {value : Expr} {inner : MemberWrite} (reaches : Reaches setting path info value inner) :
    PartOf (storeMember setting inner.parent inner.initializer)
      (storeValue setting path info value) := by
  induction reaches with
  | member inPlace listed =>
    rw [storeValue_construct setting _ _ inPlace]
    exact ((PartOf.refl _).flatMap listed).append_left _
  | nested inPlace listed notSkipped _ isPart =>
    have inMember := storeMember_of_not_skipped notSkipped ▸ isPart
    rw [storeValue_construct setting _ _ inPlace]
    exact (inMember.flatMap listed).append_left _
  | inTrue expands _ isPart =>
    rw [storeValue_conditional setting _ expands]
    exact .inThen List.mem_cons_self isPart
  | inFalse expands _ isPart =>
    rw [storeValue_conditional setting _ expands]
    exact .inOtherwise List.mem_cons_self isPart

/-- The statements of a write that is reached below another one are among those of the other. -/
theorem partOf_storeMember {setting : Setting} {write inner : MemberWrite}
    (isReached : inner ∈ reachedFrom setting write) :
    PartOf (storeMember setting inner.parent inner.initializer)
      (storeMember setting write.parent write.initializer) := by
  rcases mem_reachedFrom_iff.1 isReached with rfl | ⟨notSkipped, inValue⟩
  · exact .refl _
  · rw [storeMember_of_not_skipped notSkipped]
    exact partOf_storeValue (reaches_of_mem_reached inValue)

/-! ## The parts of a plan -/

/-- The path of the destination itself. -/
def rootOf (spec : Specification) : PropertyPath := ⟨destName spec.parameter.name, []⟩

/-- What the statements of the plan for a body depend on. -/
def settingOf (spec : Specification) (body : Expr) (context : NullableContext) : Setting where
  types := .ofBody (rootOf spec) spec.returnType body context
  collections := spec.options.collections
  context := context

def reachedFor (spec : Specification) (body : Expr) (context : NullableContext) :
    List MemberWrite :=
  match body with
  | .construct _ _ initializers =>
    reachedMembers (settingOf spec body context) (rootOf spec) initializers
  | _ => []

/-- A body reaches its initializers and what they reach. -/
theorem mem_reachedFor_construct {spec : Specification} {type : TypeRef} {arguments : List Expr}
    {initializers : List Initializer} {context : NullableContext} {write : MemberWrite} :
    write ∈ reachedFor spec (.construct type arguments initializers) context ↔
      ∃ initializer ∈ initializers,
        write ∈ reachedFrom (settingOf spec (.construct type arguments initializers) context)
          ⟨rootOf spec, initializer⟩ := by
  rw [reachedFor, reachedMembers_eq_flatMap, List.mem_flatMap]

/-- The statement that returns the destination as it is, if there is a reason to. -/
def earlyReturn (conditions : List Expr) (root : PropertyPath) : List Statement :=
  if conditions.isEmpty then [] else [.returnIf conditions root]

/-- Plans are made for constructions with members, of a type that is no value type. -/
theorem ofBody_eq_ok {spec : Specification} {body : Expr} {context : NullableContext}
    {plan : UpdatePlan} (planned : ofBody spec body context = .ok plan) :
    spec.returnType.isValue = false ∧
      ∃ type arguments first rest, body = .construct type arguments (first :: rest) ∧
        plan.source = spec.parameter ∧
        plan.dest = ⟨destName spec.parameter.name, spec.returnType⟩ ∧
        plan.statements =
          earlyReturn (guardConditions spec plan.dest context) (rootOf spec) ++
            ((if spec.returnType.canBeNull context && spec.returnType.constructible then
              [.ensureCreated (rootOf spec) (.construct type arguments [])]
            else
              []) ++
            (storeMembers (settingOf spec body context) (rootOf spec) (first :: rest) ++
            [.finish (rootOf spec)])) := by
  unfold ofBody at planned
  by_cases isValue : spec.returnType.isValue = true
  · rw [if_pos isValue] at planned
    cases planned
  · rw [if_neg isValue] at planned
    refine ⟨Bool.eq_false_iff.2 isValue, ?_⟩
    split at planned
    · cases planned
    · rename_i type arguments initializers nonempty
      cases initializers with
      | nil => exact (nonempty rfl).elim
      | cons first rest =>
        obtain rfl := Except.ok.inj planned
        refine ⟨type, arguments, first, rest, rfl, rfl, rfl, ?_⟩
        simp only [List.append_assoc]
        rfl
    · cases planned

end UpdatePlan

end MappingForms
