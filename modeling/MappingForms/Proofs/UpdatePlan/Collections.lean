import MappingForms.Proofs.UpdatePlan.Classification
import Mathlib.Data.List.Perm.Basic

/-!
Contract: collections that are skipped are never written.

Owns: the account of a plan, in which each of its statements belongs to one write or to the
destination itself, the notes of a plan in their order, and the law that follows for collections.

A write is skipped by what the table says about its path, or by the type of its own value. The
writes of one path share the entry of the table, so if it says that the path holds a collection,
then none of them is kept. The account is exact, so what a skipped write does not give is not in
the plan at all, unless a kept write gives it.
-/

set_option autoImplicit false

namespace MappingForms

/-- A text says which path it is about. -/
def PropertyPath.NamedIn (path : PropertyPath) (text : String) : Prop :=
  ∃ before after, text = before ++ ".".intercalate (path.root :: path.segments) ++ after

namespace Statement

/-- A statement without the statements nested in it. -/
def alone : Statement → Statement
  | branch condition _ _ => branch condition [] []
  | statement => statement

/-- The statements at any depth, in order and each without those nested in it. -/
def stepsOf (statements : List Statement) : List Statement :=
  (nodesOfAll statements).map alone

private theorem stepsOf_append (first second : List Statement) :
    stepsOf (first ++ second) = stepsOf first ++ stepsOf second := by
  simp only [stepsOf, nodesOfAll_append, List.map_append]

private theorem stepsOf_flatMap {α : Type} (items : List α) (statements : α → List Statement) :
    stepsOf (items.flatMap statements) = items.flatMap fun item => stepsOf (statements item) := by
  simp only [stepsOf, nodesOfAll_flatMap, List.map_flatMap]

private theorem stepsOf_branch (condition : Expr) (thenDo otherwise : List Statement) :
    stepsOf [.branch condition thenDo otherwise] =
      .branch condition [] [] :: (stepsOf thenDo ++ stepsOf otherwise) := by
  rw [stepsOf, nodesOfAll_singleton, nodes, List.map_cons, List.map_append]
  rfl

def note? : Statement → Option String
  | comment text => some text
  | _ => none

/-- The comments in some statements, at any depth, in order. -/
def notesOf (statements : List Statement) : List String :=
  (nodesOfAll statements).filterMap note?

private theorem notesOf_append (first second : List Statement) :
    notesOf (first ++ second) = notesOf first ++ notesOf second := by
  simp only [notesOf, nodesOfAll_append, List.filterMap_append]

private theorem notesOf_flatMap {α : Type} (items : List α) (statements : α → List Statement) :
    notesOf (items.flatMap statements) = items.flatMap fun item => notesOf (statements item) := by
  simp only [notesOf, nodesOfAll_flatMap, List.filterMap_flatMap]

private theorem notesOf_branch (condition : Expr) (thenDo otherwise : List Statement) :
    notesOf [.branch condition thenDo otherwise] = notesOf thenDo ++ notesOf otherwise := by
  rw [notesOf, nodesOfAll_singleton, nodes, List.filterMap_cons_none rfl, List.filterMap_append]
  rfl

end Statement

namespace UpdatePlan

open Statement

/-- The note of a skipped write says which path is left unchanged. -/
theorem namedIn_skipNote (path : PropertyPath) : path.NamedIn (skipNote path) :=
  ⟨"", " is left unchanged (collections are skipped)", by rw [String.empty_append]; rfl⟩

/-! ## The account of a value -/

/-- What storing a value at a path gives by itself, apart from the writes that it reaches: the
creation of an object that is written in place, the tests of a conditional with what its branches
give by themselves, a throw, or one assignment. -/
def ownSteps (path : PropertyPath) (info : PathInfo) : Expr → List Statement
  | .construct type arguments initializers =>
    if isExpandable type initializers && !info.isValue then
      creationOf info.needsCreation path type arguments
    else
      [.assign path (.construct type arguments initializers)]
  | .conditional condition whenTrue whenFalse type =>
    if expandsConditional (.conditional condition whenTrue whenFalse type) info then
      .branch condition [] [] :: (ownSteps path info whenTrue ++ ownSteps path info whenFalse)
    else
      [.assign path (.conditional condition whenTrue whenFalse type)]
  | .raise exception _ => [.raise exception]
  | value => [.assign path value]
termination_by structural value => value

private theorem ownSteps_of_isAssigned {path : PropertyPath} {info : PathInfo} {value : Expr}
    (assigned : isAssigned info value = true) :
    ownSteps path info value = [.assign path value] := by
  cases value with
  | construct => rw [ownSteps, if_neg (isAssigned_construct_iff.1 assigned)]
  | conditional => rw [ownSteps, if_neg (isAssigned_conditional_iff.1 assigned)]
  | raise => cases assigned
  | _ => rfl

section Account

variable (setting : Setting)

/-- What one write gives, apart from the writes below it. -/
def share (write : MemberWrite) : List Statement :=
  if setting.skips write then
    [.comment (skipNote write.path)]
  else
    ownSteps write.path (setting.infoOf write) write.value

private theorem steps_storeMember_of {write : MemberWrite}
    (value : setting.skips write = false →
      (stepsOf (storeValue setting write.path (setting.infoOf write) write.value)).Perm
        (ownSteps write.path (setting.infoOf write) write.value ++
          (reached setting write.path (setting.infoOf write) write.value).flatMap
            (share setting))) :
    (stepsOf (storeMember setting write.parent write.initializer)).Perm
      ((reachedFrom setting write).flatMap (share setting)) := by
  unfold reachedFrom
  rw [List.flatMap_cons]
  cases skipped : setting.skips write with
  | true =>
    rw [storeMember_of_skipped skipped, share, skipped]
    exact .refl _
  | false =>
    rw [storeMember_of_not_skipped skipped, share, skipped]
    exact value skipped

private theorem perm_append_append {α : Type} (first second third fourth : List α) :
    ((first ++ second) ++ (third ++ fourth)).Perm ((first ++ third) ++ (second ++ fourth)) := by
  rw [List.append_assoc, List.append_assoc]
  refine List.Perm.append_left first ?_
  rw [← List.append_assoc, ← List.append_assoc]
  exact List.perm_append_comm.append_right fourth

/-- Storing a value gives its own steps and the shares of the writes that it reaches, and nothing
else. The order differs only where branches put the steps of one side before those of the
other. -/
theorem steps_storeValue (path : PropertyPath) (info : PathInfo) (value : Expr) :
    (stepsOf (storeValue setting path info value)).Perm
      (ownSteps path info value ++ (reached setting path info value).flatMap (share setting)) := by
  induction path, info, value using induction_on_storing setting with
  | construct path info type arguments initializers inPlace inductionHypothesis =>
    have ownEq : stepsOf (creationOf info.needsCreation path type arguments) =
        ownSteps path info (.construct type arguments initializers) := by
      rw [ownSteps, if_pos inPlace]
      cases info.needsCreation <;> rfl
    rw [storeValue_construct setting path arguments inPlace,
      reached_construct setting path arguments inPlace, stepsOf_append, stepsOf_flatMap, ownEq,
      List.flatMap_assoc]
    refine List.Perm.append_left _ (List.Perm.flatMap_left _ fun initializer listed => ?_)
    exact steps_storeMember_of setting (inductionHypothesis initializer listed)
  | conditional path info condition whenTrue whenFalse type expands trueHypothesis
      falseHypothesis =>
    rw [storeValue_conditional setting path expands, reached_conditional setting path expands,
      stepsOf_branch, ownSteps, if_pos expands, List.flatMap_append, List.cons_append]
    exact ((trueHypothesis.append falseHypothesis).trans (perm_append_append ..)).cons _
  | raise => exact .refl _
  | whole path info value assigned =>
    rw [storeValue_of_isAssigned setting path assigned,
      reached_of_isAssigned setting path assigned, ownSteps_of_isAssigned assigned]
    exact .refl _

/-- The statements of a write are its share and those of the writes below it. -/
theorem steps_storeMember (write : MemberWrite) :
    (stepsOf (storeMember setting write.parent write.initializer)).Perm
      ((reachedFrom setting write).flatMap (share setting)) :=
  steps_storeMember_of setting fun _ => steps_storeValue setting _ _ _

/-- The notes for those of some writes that are skipped. -/
def skipNotes (writes : List MemberWrite) : List String :=
  (writes.filter setting.skips).map fun write => skipNote write.path

/-- What those of some writes give that are not skipped. -/
def keptSteps (writes : List MemberWrite) : List Statement :=
  (writes.filter (!setting.skips ·)).flatMap fun write =>
    ownSteps write.path (setting.infoOf write) write.value

/-- The shares of some writes are the notes of those that are skipped and what the others give. -/
theorem shares_perm (writes : List MemberWrite) :
    (writes.flatMap (share setting)).Perm
      ((skipNotes setting writes).map .comment ++ keptSteps setting writes) := by
  unfold skipNotes keptSteps
  induction writes with
  | nil => exact .refl _
  | cons write rest inductionHypothesis =>
    rw [List.flatMap_cons, share]
    cases skipped : setting.skips write with
    | true =>
      rw [List.filter_cons_of_pos skipped, List.filter_cons_of_neg (by simp [skipped])]
      exact inductionHypothesis.cons _
    | false =>
      rw [List.filter_cons_of_neg (by simp [skipped]), List.filter_cons_of_pos (by simp [skipped]),
        List.flatMap_cons]
      exact (inductionHypothesis.append_left _).trans (List.perm_append_comm_assoc ..)

end Account

/-! ## Notes -/

section Notes

variable (setting : Setting)

private theorem skipNotes_append (first second : List MemberWrite) :
    skipNotes setting (first ++ second) = skipNotes setting first ++ skipNotes setting second := by
  simp only [skipNotes, List.filter_append, List.map_append]

private theorem skipNotes_flatMap {α : Type} (items : List α) (writes : α → List MemberWrite) :
    skipNotes setting (items.flatMap writes) =
      items.flatMap fun item => skipNotes setting (writes item) := by
  simp only [skipNotes, List.filter_flatMap, List.map_flatMap]

private theorem notesOf_creationOf (creates : Bool) (path : PropertyPath) (type : TypeRef)
    (arguments : List Expr) : notesOf (creationOf creates path type arguments) = [] := by
  cases creates <;> rfl

private theorem notesOf_storeMember_of {write : MemberWrite}
    (value : setting.skips write = false →
      notesOf (storeValue setting write.path (setting.infoOf write) write.value) =
        skipNotes setting (reached setting write.path (setting.infoOf write) write.value)) :
    notesOf (storeMember setting write.parent write.initializer) =
      skipNotes setting (reachedFrom setting write) := by
  unfold reachedFrom skipNotes
  cases skipped : setting.skips write with
  | true =>
    rw [storeMember_of_skipped skipped, List.filter_cons_of_pos skipped]
    rfl
  | false =>
    rw [storeMember_of_not_skipped skipped,
      List.filter_cons_of_neg (Bool.eq_false_iff.1 skipped)]
    exact value skipped

/-- Storing a value notes the writes that it reaches and skips, once each and in order. -/
theorem notesOf_storeValue (path : PropertyPath) (info : PathInfo) (value : Expr) :
    notesOf (storeValue setting path info value) =
      skipNotes setting (reached setting path info value) := by
  induction path, info, value using induction_on_storing setting with
  | construct path info type arguments initializers inPlace inductionHypothesis =>
    rw [storeValue_construct setting path arguments inPlace,
      reached_construct setting path arguments inPlace, notesOf_append, notesOf_creationOf,
      List.nil_append, notesOf_flatMap, skipNotes_flatMap]
    apply List.flatMap_congr
    intro initializer listed
    exact notesOf_storeMember_of setting (inductionHypothesis initializer listed)
  | conditional path info condition whenTrue whenFalse type expands trueHypothesis
      falseHypothesis =>
    rw [storeValue_conditional setting path expands, reached_conditional setting path expands,
      notesOf_branch, trueHypothesis, falseHypothesis, skipNotes_append]
  | raise => rfl
  | whole path info value assigned =>
    rw [storeValue_of_isAssigned setting path assigned,
      reached_of_isAssigned setting path assigned]
    rfl

private theorem notesOf_storeMember (write : MemberWrite) :
    notesOf (storeMember setting write.parent write.initializer) =
      skipNotes setting (reachedFrom setting write) :=
  notesOf_storeMember_of setting fun _ => notesOf_storeValue setting _ _ _

end Notes

/-! ## The whole plan -/

section Plan

/-- The statements of a plan that are about the destination itself. -/
def destSteps (spec : Specification) (context : NullableContext) (plan : UpdatePlan)
    (type : TypeRef) (arguments : List Expr) : List Statement :=
  (if returnsEarly spec context then
    [.returnIf (guardConditions spec plan.dest context) (rootOf spec)] else []) ++
  (if createsDest spec context then
    [.ensureCreated (rootOf spec) (.construct type arguments [])] else []) ++
  [.finish (rootOf spec)]

variable {spec : Specification} {body : Expr} {context : NullableContext} {plan : UpdatePlan}

/-- A plan consists of the statements about the destination, the notes of the writes that are
skipped, and what the other writes give. -/
theorem steps_of_plan (planned : ofBody spec body context = .ok plan) :
    ∃ type arguments initializers, body = .construct type arguments initializers ∧
      (stepsOf plan.statements).Perm
        (destSteps spec context plan type arguments ++
          ((skipNotes (settingOf spec body context) (reachedFor spec body context)).map .comment ++
            keptSteps (settingOf spec body context) (reachedFor spec body context))) := by
  obtain ⟨type, arguments, initializers, rfl, statementsEq⟩ := statements_of_planned planned
  refine ⟨type, arguments, initializers, rfl, ?_⟩
  have blocks : (initializers.flatMap fun initializer =>
      stepsOf (blockOf spec (.construct type arguments initializers) context initializer)).Perm
      ((reachedFor spec (.construct type arguments initializers) context).flatMap
        (share (settingOf spec (.construct type arguments initializers) context))) := by
    rw [reachedFor, reachedMembers_eq_flatMap, List.flatMap_assoc]
    exact List.Perm.flatMap_left _ fun initializer _ => steps_storeMember _ ⟨_, initializer⟩
  have stepsOf_ite : ∀ present (statement : Statement), stepsOf [statement] = [statement] →
      stepsOf (if present = true then [statement] else []) =
        if present = true then [statement] else [] := by
    intro present statement isStep
    cases present
    · rfl
    · exact isStep
  rw [statementsEq, stepsOf_append, stepsOf_append, stepsOf_append, stepsOf_flatMap,
    stepsOf_ite _ _ rfl, stepsOf_ite _ _ rfl, destSteps]
  -- In a plan the final return stands after the blocks, in the account before them.
  refine List.Perm.trans ?_ (List.Perm.append_left _ (shares_perm _ _))
  simp only [List.append_assoc]
  exact .append_left _ (.append_left _ ((blocks.append_right _).trans List.perm_append_comm))

/-- The notes of a plan are those of the writes that it reaches and skips, in order. -/
theorem notesOf_plan (planned : ofBody spec body context = .ok plan) :
    notesOf plan.statements =
      skipNotes (settingOf spec body context) (reachedFor spec body context) := by
  obtain ⟨type, arguments, initializers, rfl, statementsEq⟩ := statements_of_planned planned
  have noNote : ∀ present (statement : Statement), notesOf [statement] = [] →
      notesOf (if present = true then [statement] else []) = [] := by
    intro present statement noneAlone
    cases present
    · rfl
    · exact noneAlone
  rw [statementsEq, notesOf_append, notesOf_append, notesOf_append, noNote _ _ rfl,
    noNote _ _ rfl, notesOf_flatMap, reachedFor, reachedMembers_eq_flatMap, skipNotes_flatMap]
  have blocks : ∀ initializer,
      notesOf (blockOf spec (.construct type arguments initializers) context initializer) =
        skipNotes _ (reachedFrom _ ⟨rootOf spec, initializer⟩) :=
    fun initializer => notesOf_storeMember _ ⟨rootOf spec, initializer⟩
  simp only [blocks]
  exact List.append_nil _

/-- The path of a write that a plan reaches and does not skip. -/
def IsKept (spec : Specification) (body : Expr) (context : NullableContext)
    (path : PropertyPath) : Prop :=
  ∃ write ∈ reachedFor spec body context,
    write.path = path ∧ (settingOf spec body context).skips write = false

private theorem covers_reachedFor (spec : Specification) (body : Expr)
    (context : NullableContext) :
    Covers (settingOf spec body context) (IsKept spec body context) (fun _ => True)
      (reachedFor spec body context) := by
  intro write isReached
  split
  · trivial
  · rename_i notSkipped
    exact ⟨write, isReached, rfl, Bool.eq_false_iff.2 notSkipped⟩

/-- What a plan writes below the destination is not skipped. -/
theorem written_of_planned (planned : ofBody spec body context = .ok plan)
    {statement : Statement} (listed : statement ∈ nodesOfAll plan.statements)
    {path : PropertyPath} (writes : statement.written? = some path) :
    path = rootOf spec ∨ IsKept spec body context path := by
  obtain ⟨type, arguments, initializers, rfl, statementsEq⟩ := statements_of_planned planned
  simp only [statementsEq, nodesOfAll_append, nodesOfAll_flatMap, nodesOfAll_ite, List.mem_append,
    List.mem_ite_nil_right, List.mem_flatMap] at listed
  rcases listed with ((⟨-, isEarly⟩ | ⟨-, isCreation⟩) | ⟨initializer, isInitializer, inBlock⟩) |
    isFinish
  · obtain rfl := List.mem_singleton.1 isEarly
    cases writes
  · obtain rfl := List.mem_singleton.1 isCreation
    exact .inl (Option.some.inj writes).symm
  · have coversAll := covers_reachedFor spec (.construct type arguments initializers) context
    have covers := coversAll.of_forall_mem fun write fromInitializer =>
      mem_reachedFor_construct.2 ⟨initializer, isInitializer, fromInitializer⟩
    exact .inr ((stores_storeMember covers statement inBlock).written_of_written? writes)
  · obtain rfl := List.mem_singleton.1 isFinish
    cases writes

/-- The table has every path that is recorded. -/
theorem exists_info_of_mem_recordedFor (context : NullableContext) {entry : PathTypes.Entry}
    (isRecorded : entry ∈ recordedFor spec body) :
    ∃ info, (settingOf spec body context).types.get? entry.path = some info := by
  obtain ⟨last, -, isLast⟩ := exists_lastAt isRecorded
  exact ⟨_, get?_types_eq_some_iff.2 ⟨last, isLast, rfl⟩⟩

private theorem infoOf_of_get? {write : MemberWrite} {info : PathInfo}
    (found : (settingOf spec body context).types.get? write.path = some info) :
    (settingOf spec body context).infoOf write = info := by
  rw [Setting.infoOf, found, Option.getD_some]

/-- Collections that are skipped are never written.

Wherever a statement of a plan stands, the path that it assigns or creates is in the table. If
collections are skipped, the path is that of the destination, or the table does not say that it
holds a collection.

A write that is reached is skipped exactly if collections are skipped, and its path holds a
collection by the table or its value is one. Its statements are then one note, which names its
path and stands in the plan. All other statements of the plan are about the destination or belong
to a write that is not skipped: the statements at any depth are, up to their order, those about the
destination, one note for each skipped write, and what the other writes give. The notes stand in
the order of their writes. -/
theorem skipped_collections_are_never_written
    (planned : ofBody spec body context = .ok plan) :
    (∀ statement ∈ nodesOfAll plan.statements, ∀ path, statement.written? = some path →
      ∃ info, (PathTypes.ofBody (rootOf spec) spec.returnType body context).get? path = some info ∧
        (spec.options.collections = .skip → path ≠ rootOf spec → info.isCollection = false)) ∧
    (∀ write ∈ reachedFor spec body context,
      (∃ info,
        (PathTypes.ofBody (rootOf spec) spec.returnType body context).get? write.path = some info ∧
        ((settingOf spec body context).skips write = true ↔
          spec.options.collections = .skip ∧
            (info.isCollection = true ∨ write.value.type.shape = .collection))) ∧
      ((settingOf spec body context).skips write = true →
        storeMember (settingOf spec body context) write.parent write.initializer =
          [.comment (skipNote write.path)] ∧
        PartOf [.comment (skipNote write.path)] plan.statements ∧
        write.path.NamedIn (skipNote write.path))) ∧
    (∃ type arguments initializers, body = .construct type arguments initializers ∧
      (stepsOf plan.statements).Perm
        (destSteps spec context plan type arguments ++
          ((skipNotes (settingOf spec body context) (reachedFor spec body context)).map .comment ++
            keptSteps (settingOf spec body context) (reachedFor spec body context)))) ∧
    notesOf plan.statements =
      skipNotes (settingOf spec body context) (reachedFor spec body context) := by
  refine ⟨fun statement listed path writes => ?_, fun write isReached => ⟨?_, fun skipped => ?_⟩,
    steps_of_plan planned, notesOf_plan planned⟩
  · -- The destination is in the table, but it is created whatever its type is.
    rcases written_of_planned planned listed writes with rfl | ⟨write, isReached, rfl, kept⟩
    · have isRecorded : ⟨rootOf spec, spec.returnType⟩ ∈ recordedFor spec body :=
        List.mem_cons_self
      obtain ⟨info, found⟩ := exists_info_of_mem_recordedFor context isRecorded
      exact ⟨info, found, fun _ notRoot => (notRoot rfl).elim⟩
    · obtain ⟨info, found⟩ :=
        exists_info_of_mem_recordedFor context (mem_recordedFor_of_mem_reachedFor isReached)
      refine ⟨info, found, fun isSkip _ => Bool.eq_false_iff.2 fun isCollection => ?_⟩
      rw [← infoOf_of_get? found] at isCollection
      exact Bool.eq_false_iff.1 kept (Setting.skips_iff.2 ⟨isSkip, .inl isCollection⟩)
  · obtain ⟨info, found⟩ :=
      exists_info_of_mem_recordedFor context (mem_recordedFor_of_mem_reachedFor isReached)
    refine ⟨info, found, ?_⟩
    rw [← infoOf_of_get? found]
    exact Setting.skips_iff
  · have onlyNote := storeMember_of_skipped skipped
    exact ⟨onlyNote, onlyNote ▸ partOf_plan planned isReached, namedIn_skipNote write.path⟩

end Plan

end UpdatePlan

namespace MailUpdate

open UpdatePlan

/-- `new Mail { Subject = m.Subject, Body = m.Lines }`, where `Body` is declared as an object. -/
def linesAsBody : Expr :=
  .construct mailType []
    [⟨"Subject", .string, read "Subject" .string⟩, ⟨"Body", bodyType, read "Lines" .strings⟩]

/-- Neither branch writes the content, and each notes that. Where the body of a mail receives lines
without being declared as a collection, the plan sets the subject and does nothing else besides its
note. -/
theorem content_is_never_written :
    (∃ plan, ofBody spec (body asLines) .enabled = .ok plan ∧
      (∀ statement ∈ Statement.nodesOfAll plan.statements,
        statement.written? ≠ some contentPath) ∧
      Statement.notesOf plan.statements = [skipNote contentPath, skipNote contentPath]) ∧
    ∃ plan, ofBody spec linesAsBody .enabled = .ok plan ∧
      (Statement.stepsOf plan.statements).Perm
        (destSteps spec .enabled plan mailType [] ++
          [.comment (skipNote ⟨"dest", ["Body"]⟩),
            .assign ⟨"dest", ["Subject"]⟩ (read "Subject" .string)]) := by
  constructor
  · obtain ⟨plan, planned⟩ : ∃ plan, ofBody spec (body asLines) .enabled = .ok plan := ⟨_, rfl⟩
    obtain ⟨writes, -, -, notes⟩ := skipped_collections_are_never_written planned
    refine ⟨plan, planned, fun statement listed isWritten => ?_, notes⟩
    obtain ⟨info, found, notCollection⟩ := writes statement listed contentPath isWritten
    obtain rfl := Option.some.inj found
    exact absurd (notCollection rfl (by decide)) (by decide)
  · obtain ⟨plan, planned⟩ : ∃ plan, ofBody spec linesAsBody .enabled = .ok plan := ⟨_, rfl⟩
    obtain ⟨-, -, ⟨type, arguments, initializers, isBody, account⟩, -⟩ :=
      skipped_collections_are_never_written planned
    cases isBody
    exact ⟨plan, planned, account⟩

end MailUpdate

end MappingForms
