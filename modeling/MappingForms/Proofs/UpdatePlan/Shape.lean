import MappingForms.Proofs.UpdatePlan.Writes

/-!
Contract: update plans have one shape.

Owns: what the statements of one write can be, at any depth, and the law that a plan is an
optional early return, an optional creation of the destination, a block for each initializer
and the final return.

Everything about single statements comes from one list of the kinds of statements that a write
can give. That branches are not empty is part of the list: a construction is stored member by
member only if it has members, and each member gives a statement, be it a note.
-/

set_option autoImplicit false

namespace MappingForms

namespace PropertyPath

/-- A path that starts with another one. -/
def Within (outer inner : PropertyPath) : Prop :=
  inner.root = outer.root ∧ outer.segments <+: inner.segments

private theorem within_self (path : PropertyPath) : path.Within path := ⟨rfl, List.prefix_refl _⟩

private theorem within_child (path : PropertyPath) (name : String) :
    path.Within (path.child name) :=
  ⟨rfl, List.prefix_append _ _⟩

private theorem Within.eq_cons {outer inner : PropertyPath} {name : String}
    (within : (outer.child name).Within inner) (isRoot : outer.segments = []) :
    ∃ below, inner = ⟨outer.root, name :: below⟩ := by
  obtain ⟨sameRoot, below, segmentsEq⟩ := within
  refine ⟨below, ?_⟩
  rw [child, isRoot] at segmentsEq
  cases inner
  cases sameRoot
  cases segmentsEq
  rfl

theorem Within.trans {outer middle inner : PropertyPath} (first : outer.Within middle)
    (second : middle.Within inner) : outer.Within inner :=
  ⟨second.1.trans first.1, first.2.trans second.2⟩

end PropertyPath

namespace Statement

/-- The path that a statement assigns or creates. -/
def written? : Statement → Option PropertyPath
  | assign path _ => some path
  | ensureCreated path _ => some path
  | _ => none

def isReturn : Statement → Bool
  | returnIf .. => true
  | finish .. => true
  | _ => false

end Statement

/-- A value that is neither a construction nor a conditional. -/
def Expr.isSimple : Expr → Bool
  | .construct .. => false
  | .conditional .. => false
  | _ => true

namespace UpdatePlan

open Statement

/-! ## The statements of one write -/

/-- What a statement can be that stores something: it writes one of some paths, notes one of
some paths, branches with something to do in both branches, or throws. -/
inductive Stores (written noted : PropertyPath → Prop) : Statement → Prop where
  | assign {path : PropertyPath} (value : Expr) (isWritten : written path) :
      Stores written noted (.assign path value)
  | ensureCreated {path : PropertyPath} (creation : Expr) (isWritten : written path) :
      Stores written noted (.ensureCreated path creation)
  | branch (condition : Expr) {thenDo otherwise : List Statement} (thenActs : thenDo ≠ [])
      (otherwiseActs : otherwise ≠ []) : Stores written noted (.branch condition thenDo otherwise)
  | raise (exception : Expr) : Stores written noted (.raise exception)
  | note {path : PropertyPath} (isNoted : noted path) :
      Stores written noted (.comment (skipNote path))

namespace Stores

variable {written noted : PropertyPath → Prop} {statement : Statement}

private theorem isReturn_eq_false (stores : Stores written noted statement) :
    statement.isReturn = false := by
  cases stores <;> rfl

/-- What a storing statement writes is among the written paths. -/
theorem written_of_written? {path : PropertyPath} (stores : Stores written noted statement)
    (writes : statement.written? = some path) : written path := by
  cases stores with
  | assign value isWritten | ensureCreated value isWritten =>
    exact Option.some.inj writes ▸ isWritten
  | branch | raise | note => cases writes

private theorem branches_act {condition : Expr} {thenDo otherwise : List Statement}
    (stores : Stores written noted (.branch condition thenDo otherwise)) :
    thenDo ≠ [] ∧ otherwise ≠ [] := by
  cases stores with
  | branch condition thenActs otherwiseActs => exact ⟨thenActs, otherwiseActs⟩

end Stores

variable (setting : Setting)

private theorem storeMember_ne_nil_of (write : MemberWrite)
    (value : setting.skips write = false →
      storeValue setting write.path (setting.infoOf write) write.value ≠ []) :
    storeMember setting write.parent write.initializer ≠ [] := by
  cases skipped : setting.skips write with
  | true =>
    rw [storeMember_of_skipped skipped]
    exact List.cons_ne_nil _ _
  | false =>
    rw [storeMember_of_not_skipped skipped]
    exact value skipped

private theorem storeValue_ne_nil (path : PropertyPath) (info : PathInfo) (value : Expr) :
    storeValue setting path info value ≠ [] := by
  induction path, info, value using induction_on_storing setting with
  | construct path info type arguments initializers inPlace inductionHypothesis =>
    rw [storeValue_construct setting path arguments inPlace]
    -- A creation may be missing, so it is the first member that gives a statement.
    cases initializers with
    | nil => simp [isExpandable] at inPlace
    | cons first rest =>
      have firstActs : storeMember setting path first ≠ [] :=
        storeMember_ne_nil_of setting ⟨path, first⟩ (inductionHypothesis first List.mem_cons_self)
      simp [firstActs]
  | conditional path info condition whenTrue whenFalse type expands =>
    rw [storeValue_conditional setting path expands]
    exact List.cons_ne_nil _ _
  | raise => exact List.cons_ne_nil _ _
  | whole path info value assigned =>
    rw [storeValue_of_isAssigned setting path assigned]
    exact List.cons_ne_nil _ _

/-- Every write gives a statement, be it a note. -/
theorem storeMember_ne_nil (parent : PropertyPath) (initializer : Initializer) :
    storeMember setting parent initializer ≠ [] :=
  storeMember_ne_nil_of setting ⟨parent, initializer⟩ fun _ => storeValue_ne_nil setting _ _ _

/-- The paths of some writes are noted where the write is skipped, and written elsewhere. -/
def Covers (written noted : PropertyPath → Prop) (writes : List MemberWrite) : Prop :=
  ∀ write ∈ writes, if setting.skips write then noted write.path else written write.path

variable {setting} {written noted : PropertyPath → Prop}

theorem Covers.of_forall_mem {writes fewer : List MemberWrite}
    (covers : Covers setting written noted writes) (listed : ∀ write ∈ fewer, write ∈ writes) :
    Covers setting written noted fewer :=
  fun write isFewer => covers write (listed write isFewer)

private theorem stores_storeMember_of {write : MemberWrite}
    (covers : Covers setting written noted (reachedFrom setting write))
    (value : setting.skips write = false → written write.path →
      Covers setting written noted
        (reached setting write.path (setting.infoOf write) write.value) →
      ∀ statement ∈ nodesOfAll (storeValue setting write.path (setting.infoOf write) write.value),
        Stores written noted statement) :
    ∀ statement ∈ nodesOfAll (storeMember setting write.parent write.initializer),
      Stores written noted statement := by
  unfold Covers reachedFrom at covers
  intro statement listed
  cases skipped : setting.skips write with
  | true =>
    rw [storeMember_of_skipped skipped] at listed
    simp only [skipped, if_true, List.forall_mem_singleton] at covers
    obtain rfl := List.mem_singleton.1 listed
    exact .note covers
  | false =>
    rw [storeMember_of_not_skipped skipped] at listed
    simp only [skipped, Bool.false_eq_true, if_false, List.forall_mem_cons] at covers
    exact value skipped covers.1 covers.2 statement listed

/-- Storing a value at a path gives statements that write this path and the paths of the writes
that are reached, except that skipped writes are noted. -/
theorem stores_storeValue (path : PropertyPath) (info : PathInfo) (value : Expr)
    (isWritten : written path)
    (covers : Covers setting written noted (reached setting path info value)) :
    ∀ statement ∈ nodesOfAll (storeValue setting path info value),
      Stores written noted statement := by
  induction path, info, value using induction_on_storing setting with
  | construct path info type arguments initializers inPlace inductionHypothesis =>
    rw [reached_construct setting path arguments inPlace] at covers
    rw [storeValue_construct setting path arguments inPlace, nodesOfAll_append,
      nodesOfAll_flatMap]
    intro statement listed
    rcases List.mem_append.1 listed with isCreation | inMember
    · unfold creationOf at isCreation
      split at isCreation
      · obtain rfl := List.mem_singleton.1 isCreation
        exact .ensureCreated _ isWritten
      · cases isCreation
    · obtain ⟨initializer, isMember, inBlock⟩ := List.mem_flatMap.1 inMember
      have coversMember : Covers setting written noted (reachedFrom setting ⟨path, initializer⟩) :=
        covers.of_forall_mem fun inner listed =>
          List.mem_flatMap.2 ⟨initializer, isMember, listed⟩
      exact stores_storeMember_of coversMember (inductionHypothesis initializer isMember) statement
        inBlock
  | conditional path info condition whenTrue whenFalse type expands trueHypothesis
      falseHypothesis =>
    rw [reached_conditional setting path expands] at covers
    rw [storeValue_conditional setting path expands, nodesOfAll_singleton, nodes]
    have coversParts := List.forall_mem_append.1 covers
    intro statement listed
    rcases List.mem_cons.1 listed with rfl | below
    · exact .branch condition (storeValue_ne_nil setting path info whenTrue)
        (storeValue_ne_nil setting path info whenFalse)
    · rcases List.mem_append.1 below with inThen | inOtherwise
      · exact trueHypothesis isWritten coversParts.1 statement inThen
      · exact falseHypothesis isWritten coversParts.2 statement inOtherwise
  | raise path info exception type =>
    intro statement listed
    obtain rfl := List.mem_singleton.1 listed
    exact .raise exception
  | whole path info value assigned =>
    rw [storeValue_of_isAssigned setting path assigned]
    intro statement listed
    obtain rfl := List.mem_singleton.1 listed
    exact .assign value isWritten

/-- Each statement of a write stores something at a path of the writes that it reaches. -/
theorem stores_storeMember {write : MemberWrite}
    (covers : Covers setting written noted (reachedFrom setting write)) :
    ∀ statement ∈ nodesOfAll (storeMember setting write.parent write.initializer),
      Stores written noted statement :=
  stores_storeMember_of covers fun _ => stores_storeValue _ _ _

/-! ## Paths below a write -/

/-- A write that is reached lies below the path where storing started. -/
theorem Reaches.within {path : PropertyPath} {info : PathInfo} {value : Expr}
    {inner : MemberWrite} (reaches : Reaches setting path info value inner) :
    path.Within inner.path := by
  induction reaches with
  | member => exact PropertyPath.within_child _ _
  | nested _ _ _ _ within => exact (PropertyPath.within_child _ _).trans within
  | inTrue _ _ within | inFalse _ _ within => exact within

private theorem within_of_mem_reachedFrom {write inner : MemberWrite}
    (isReached : inner ∈ reachedFrom setting write) : write.path.Within inner.path := by
  rcases mem_reachedFrom_iff.1 isReached with rfl | ⟨-, inValue⟩
  · exact inner.path.within_self
  · exact (reaches_of_mem_reached inValue).within

/-- The statements of a write stay below its path. -/
theorem stores_storeMember_within (write : MemberWrite) :
    ∀ statement ∈ nodesOfAll (storeMember setting write.parent write.initializer),
      Stores write.path.Within write.path.Within statement := by
  apply stores_storeMember
  intro inner listed
  rw [ite_self]
  exact within_of_mem_reachedFrom listed

/-- A write of a simple value is one statement. -/
theorem storeMember_of_isSimple (setting : Setting) (parent : PropertyPath)
    {initializer : Initializer} (simple : initializer.value.isSimple = true) :
    ∃ statement, storeMember setting parent initializer = [statement] ∧ statement.count = 1 := by
  obtain ⟨name, declared, value⟩ := initializer
  rw [storeMember]
  split
  · exact ⟨_, rfl, rfl⟩
  · cases value with
    | construct | conditional => cases simple
    | _ => exact ⟨_, rfl, rfl⟩

/-! ## The whole plan -/

section Plan

variable (spec : Specification) (body : Expr) (context : NullableContext)

/-- Whether there is a reason to return the destination as it is: the source can be null, or the
destination can be null and cannot be created. -/
def returnsEarly : Bool :=
  spec.parameter.type.canBeNull context ||
    (spec.returnType.canBeNull context && !spec.returnType.constructible)

/-- Whether a destination that is null is created. -/
def createsDest : Bool := spec.returnType.canBeNull context && spec.returnType.constructible

/-- The statements for one initializer of the body. -/
def blockOf (initializer : Initializer) : List Statement :=
  storeMember (settingOf spec body context) (rootOf spec) initializer

private theorem earlyReturn_guardConditions (dest : Parameter)
    (sameType : dest.type = spec.returnType) :
    earlyReturn (guardConditions spec dest context) (rootOf spec) =
      if returnsEarly spec context then
        [.returnIf (guardConditions spec dest context) (rootOf spec)]
      else [] := by
  have isEmpty : (guardConditions spec dest context).isEmpty = !returnsEarly spec context := by
    simp only [guardConditions, returnsEarly, sameType]
    cases spec.parameter.type.canBeNull context <;>
      cases spec.returnType.canBeNull context && !spec.returnType.constructible <;> rfl
  rw [earlyReturn, isEmpty]
  cases returnsEarly spec context <;> rfl

variable {spec body context}

/-- A plan is made of the blocks of the initializers and of statements about the destination. -/
theorem statements_of_planned {plan : UpdatePlan}
    (planned : ofBody spec body context = .ok plan) :
    ∃ type arguments initializers,
      body = .construct type arguments initializers ∧
      plan.statements =
        (if returnsEarly spec context then
          [.returnIf (guardConditions spec plan.dest context) (rootOf spec)] else []) ++
        (if createsDest spec context then
          [.ensureCreated (rootOf spec) (.construct type arguments [])] else []) ++
        initializers.flatMap (blockOf spec body context) ++ [.finish (rootOf spec)] := by
  obtain ⟨-, type, arguments, first, rest, rfl, -, destEq, statementsEq⟩ := ofBody_eq_ok planned
  refine ⟨type, arguments, first :: rest, rfl, ?_⟩
  have sameType : plan.dest.type = spec.returnType := by rw [destEq]
  rw [statementsEq, earlyReturn_guardConditions spec context plan.dest sameType,
    storeMembers_eq_flatMap, List.append_assoc, List.append_assoc]
  rfl

/-- The statements of every write that a plan reaches stand in the plan. -/
theorem partOf_plan {plan : UpdatePlan} {write : MemberWrite}
    (planned : ofBody spec body context = .ok plan)
    (isReached : write ∈ reachedFor spec body context) :
    PartOf (storeMember (settingOf spec body context) write.parent write.initializer)
      plan.statements := by
  obtain ⟨type, arguments, initializers, rfl, statementsEq⟩ := statements_of_planned planned
  obtain ⟨initializer, listed, fromInitializer⟩ := mem_reachedFor_construct.1 isReached
  have inBlock : PartOf _ (blockOf spec _ context initializer) :=
    partOf_storeMember fromInitializer
  rw [statementsEq]
  exact (inBlock.flatMap listed).append _ _

/-- The statements in the block of an initializer, at any depth, store something at the member of
the initializer or below it. -/
theorem stores_blockOf {initializer : Initializer} {statement : Statement}
    (listed : statement ∈ nodesOfAll (blockOf spec body context initializer)) :
    Stores ((rootOf spec).child initializer.member).Within
      ((rootOf spec).child initializer.member).Within statement :=
  stores_storeMember_within ⟨rootOf spec, initializer⟩ statement listed

section Simple

variable {initializers : List Initializer}
  (simple : ∀ initializer ∈ initializers, initializer.value.isSimple = true)

include simple

private theorem length_blockOf_of_simple :
    ∀ initializer ∈ initializers, (blockOf spec body context initializer).length = 1 := by
  intro initializer listed
  obtain ⟨statement, isBlock, -⟩ := storeMember_of_isSimple (settingOf spec body context)
    (rootOf spec) (simple initializer listed)
  rw [blockOf, isBlock, List.length_singleton]

private theorem length_blocks_of_simple :
    (initializers.flatMap (blockOf spec body context)).length = initializers.length := by
  rw [List.length_flatMap, List.map_congr_left (length_blockOf_of_simple simple), List.map_const',
    List.sum_replicate_nat, Nat.mul_one]

private theorem count_of_mem_blocks_of_simple {statement : Statement}
    (listed : statement ∈ initializers.flatMap (blockOf spec body context)) :
    statement.count = 1 := by
  obtain ⟨initializer, isInitializer, inBlock⟩ := List.mem_flatMap.1 listed
  obtain ⟨only, isBlock, countOne⟩ := storeMember_of_isSimple (settingOf spec body context)
    (rootOf spec) (simple initializer isInitializer)
  rw [blockOf, isBlock, List.mem_singleton] at inBlock
  rw [inBlock, countOne]

end Simple

end Plan

/-- Update plans have one shape.

An early return stands first, exactly if the source can be null, or the destination can be null
and cannot be created. The creation of the destination follows, exactly if it can be null and
can be created. Then come one block for each initializer, in order, and the final return.

A block is not empty. No statement in it returns, at any depth, both branches of every branching
statement have something to do, and everything is written at the member of the initializer or
below it. If no initializer sets a construction or a conditional, each block is one statement. -/
theorem plan_has_one_shape {spec : Specification} {body : Expr} {context : NullableContext}
    {plan : UpdatePlan} (planned : ofBody spec body context = .ok plan) :
    ∃ type arguments initializers,
      body = .construct type arguments initializers ∧
      plan.statements =
        (if returnsEarly spec context then
          [.returnIf (guardConditions spec plan.dest context) (rootOf spec)] else []) ++
        (if createsDest spec context then
          [.ensureCreated (rootOf spec) (.construct type arguments [])] else []) ++
        initializers.flatMap (blockOf spec body context) ++ [.finish (rootOf spec)] ∧
      (∀ initializer ∈ initializers,
        blockOf spec body context initializer ≠ [] ∧
        ∀ statement ∈ nodesOfAll (blockOf spec body context initializer),
          statement.isReturn = false ∧
          (∀ condition thenDo otherwise, statement = .branch condition thenDo otherwise →
            thenDo ≠ [] ∧ otherwise ≠ []) ∧
          ∀ path, statement.written? = some path →
            ∃ below, path = ⟨(rootOf spec).root, initializer.member :: below⟩) ∧
      ((∀ initializer ∈ initializers, initializer.value.isSimple = true) →
        (∀ initializer ∈ initializers, (blockOf spec body context initializer).length = 1) ∧
        (∀ statement ∈ plan.statements, statement.count = 1) ∧
        plan.statements.length = initializers.length + (returnsEarly spec context).toNat +
          (createsDest spec context).toNat + 1) := by
  obtain ⟨type, arguments, initializers, isBody, statementsEq⟩ := statements_of_planned planned
  refine ⟨type, arguments, initializers, isBody, statementsEq, ?_, ?_⟩
  · intro initializer _
    refine ⟨storeMember_ne_nil _ _ _, fun statement listed => ?_⟩
    have stores := stores_blockOf listed
    refine ⟨stores.isReturn_eq_false, ?_, ?_⟩
    · rintro condition thenDo otherwise rfl
      exact stores.branches_act
    · intro path writes
      exact (stores.written_of_written? writes).eq_cons rfl
  · intro simple
    refine ⟨length_blockOf_of_simple simple, fun statement listed => ?_, ?_⟩
    · rw [statementsEq] at listed
      simp only [List.mem_append, List.mem_ite_nil_right, List.mem_singleton] at listed
      rcases listed with ((⟨-, rfl⟩ | ⟨-, rfl⟩) | inBlocks) | rfl
      · rfl
      · rfl
      · exact count_of_mem_blocks_of_simple simple inBlocks
      · rfl
    · rw [statementsEq]
      simp only [List.length_append, length_blocks_of_simple simple, List.length_singleton]
      cases returnsEarly spec context <;> cases createsDest spec context <;> simp <;> omega

end UpdatePlan

/-! ## A mail whose body is text or lines -/

namespace MailUpdate

def bodyType : TypeRef := { name := "dynamic", shape := .reference, nullable := true }

def mailType : TypeRef := .reference "Mail"

def source : Parameter := ⟨"m", { mailType with nullable := true }⟩

def read (name : String) (type : TypeRef) : Expr :=
  .member (.parameter source.name source.type) name false type

def textBodyType : TypeRef := .reference "TextBody"

def lineBodyType : TypeRef := .reference "LineBody"

/-- `new TextBody { Content = m.Text }` -/
def asText : Expr :=
  .construct textBodyType [] [⟨"Content", .string, read "Text" .string⟩]

/-- `new LineBody { Content = m.Lines }` -/
def asLines : Expr :=
  .construct lineBodyType [] [⟨"Content", .strings, read "Lines" .strings⟩]

/-- `new Mail { Subject = m.Subject }` -/
def subjectOnly : Expr :=
  .construct mailType [] [⟨"Subject", .string, read "Subject" .string⟩]

/-- `new Mail { Body = m.IsText ? new TextBody { Content = m.Text } : otherwise }` -/
def body (otherwise : Expr) : Expr :=
  .construct mailType []
    [⟨"Body", bodyType, .conditional (read "IsText" .boolean) asText otherwise bodyType⟩]

def spec : Specification where
  id := ⟨"Mails", "Copy", "Mail"⟩
  scope := ⟨none, "Mails", true⟩
  parameter := source
  returnType := source.type
  body := body asLines
  options := ⟨true, true, .keep, .skip⟩
  span := {}

/-- Without a construction or a conditional the statements can be counted, and with one they stay
below the member that is set. -/
theorem plans_of_mails_have_the_shape :
    (∃ plan, UpdatePlan.ofBody spec subjectOnly .enabled = .ok plan ∧
      plan.statements.length = 4) ∧
    ∃ plan type arguments first, UpdatePlan.ofBody spec (body asLines) .enabled = .ok plan ∧
      body asLines = .construct type arguments [first] ∧ first.value.isSimple = false ∧
      ∀ statement ∈ Statement.nodesOfAll
          (UpdatePlan.blockOf spec (body asLines) .enabled first),
        ∀ path, statement.written? = some path → ∃ below, path = ⟨"dest", "Body" :: below⟩ := by
  constructor
  · obtain ⟨plan, planned⟩ : ∃ plan, UpdatePlan.ofBody spec subjectOnly .enabled = .ok plan :=
      ⟨_, rfl⟩
    obtain ⟨type, arguments, initializers, isBody, -, -, ofSimple⟩ :=
      UpdatePlan.plan_has_one_shape planned
    cases isBody
    exact ⟨plan, planned, (ofSimple (List.forall_mem_singleton.2 rfl)).2.2⟩
  · obtain ⟨plan, planned⟩ :
        ∃ plan, UpdatePlan.ofBody spec (body asLines) .enabled = .ok plan :=
      ⟨_, rfl⟩
    obtain ⟨type, arguments, initializers, isBody, -, blocks, -⟩ :=
      UpdatePlan.plan_has_one_shape planned
    cases isBody
    refine ⟨plan, _, _, _, planned, rfl, rfl, fun statement listed => ?_⟩
    exact ((blocks _ List.mem_cons_self).2 statement listed).2.2

end MailUpdate

end MappingForms
