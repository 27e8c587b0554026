import MappingForms.Proofs.UpdatePlan.Stored
import MappingForms.Proofs.UpdatePlan.Typing
import MappingForms.Proofs.UpdatePlan.Writes

/-!
Contract: an update procedure computes what its mapping body computes.

Owns: the relation between a destination, the value of a body and the updated
destination, and the law that the run of a plan establishes it.

The value of a body is a new object. An update writes the same members into an
existing object instead. What the body constructs in place of an existing object
reuses it; everything else replaces what was there. Members that no initializer
sets, and members that are skipped, are those of the reused object.

A construction is written in place unless its own type or the declared type is a
value type. A conditional is written in place if all its branches are
constructions, nulls or throws and one of them is such a construction.
-/

set_option autoImplicit false

namespace MappingForms

variable {Atom : Type}

/-- Whether a member is left alone because it holds or receives a collection. -/
def CollectionPolicy.skips (policy : CollectionPolicy) (initializer : Initializer) : Bool :=
  policy == .skip &&
    (initializer.memberType.shape == .collection || initializer.value.type.shape == .collection)

namespace UpdatePlan

/-- Whether a value that is stored in a member of a declared type is written into the
object that is there. -/
def writesInPlace (declared : TypeRef) (value : Expr) : Bool :=
  !declared.isValue && branchesQualify value && hasExpandable value

end UpdatePlan

/-- A value that is stored as a whole: neither a choice nor a construction with members. -/
def Expr.isWhole : Expr → Bool
  | .conditional .. => false
  | .construct _ _ (_ :: _) => false
  | _ => true

namespace ObjectModel

section Relations

variable (model : ObjectModel Atom) (environment : Environment (ObjectTree Atom))

/-- The object that a construction is written into is the one that is there, or a new one
in place of null. -/
def StartsFrom (type : TypeRef) (arguments : List Expr) (before object : ObjectTree Atom) :
    Prop :=
  before = object ∨
    before = .null ∧ model.evaluate environment (.construct type arguments []) = some object

variable (policy : CollectionPolicy)

mutual

/-- A place of a declared type held `before`; after an expression with the value `wanted`
was stored there, it holds the last argument. -/
inductive Updated :
    TypeRef → Expr → ObjectTree Atom → ObjectTree Atom → ObjectTree Atom → Prop where
  | whole {declared : TypeRef} {value : Expr} {before wanted : ObjectTree Atom}
      (replaced : UpdatePlan.writesInPlace declared value = false) :
      Updated declared value before wanted wanted
  | whenTrue {declared type : TypeRef} {condition whenTrue whenFalse : Expr}
      {before wanted after : ObjectTree Atom}
      (inPlace : UpdatePlan.writesInPlace declared
        (.conditional condition whenTrue whenFalse type) = true)
      (holds : model.holds environment condition = some true)
      (updated : Updated declared whenTrue before wanted after) :
      Updated declared (.conditional condition whenTrue whenFalse type) before wanted after
  | whenFalse {declared type : TypeRef} {condition whenTrue whenFalse : Expr}
      {before wanted after : ObjectTree Atom}
      (inPlace : UpdatePlan.writesInPlace declared
        (.conditional condition whenTrue whenFalse type) = true)
      (fails : model.holds environment condition = some false)
      (updated : Updated declared whenFalse before wanted after) :
      Updated declared (.conditional condition whenTrue whenFalse type) before wanted after
  | construct {declared type : TypeRef} {arguments : List Expr}
      {initializers : List Initializer} {before wanted after : ObjectTree Atom}
      (inPlace : UpdatePlan.writesInPlace declared
        (.construct type arguments initializers) = true)
      (rebuilt : Rebuilt (.construct type arguments initializers) before wanted after) :
      Updated declared (.construct type arguments initializers) before wanted after

/-- The object that a construction describes was written into `before`, which is reused or
created. -/
inductive Rebuilt : Expr → ObjectTree Atom → ObjectTree Atom → ObjectTree Atom → Prop where
  | mk {type : TypeRef} {arguments : List Expr} {initializers : List Initializer}
      {before : ObjectTree Atom} {content wantedContent : Atom}
      {start wanted after : String → ObjectTree Atom}
      (started : model.StartsFrom environment type arguments before (.object content start))
      (written : ∀ initializer ∈ initializers, policy.skips initializer = false →
        Updated initializer.memberType initializer.value (start initializer.member)
          (wanted initializer.member) (after initializer.member))
      (kept : ∀ name,
        (∀ initializer ∈ initializers, initializer.member = name →
          policy.skips initializer = true) → after name = start name) :
      Rebuilt (.construct type arguments initializers) before (.object wantedContent wanted)
        (.object content after)

end

/-- Along the branches that are taken and the initializers that are not skipped, a path
of members leads to an expression. -/
inductive Initializes : Expr → List String → Expr → Prop where
  | here (expr : Expr) : Initializes expr [] expr
  | whenTrue {condition whenTrue whenFalse leaf : Expr} {type : TypeRef} {path : List String}
      (holds : model.holds environment condition = some true)
      (below : Initializes whenTrue path leaf) :
      Initializes (.conditional condition whenTrue whenFalse type) path leaf
  | whenFalse {condition whenTrue whenFalse leaf : Expr} {type : TypeRef} {path : List String}
      (fails : model.holds environment condition = some false)
      (below : Initializes whenFalse path leaf) :
      Initializes (.conditional condition whenTrue whenFalse type) path leaf
  | member {type : TypeRef} {arguments : List Expr} {initializers : List Initializer}
      {initializer : Initializer} {leaf : Expr} {path : List String}
      (listed : initializer ∈ initializers) (notSkipped : policy.skips initializer = false)
      (below : Initializes initializer.value path leaf) :
      Initializes (.construct type arguments initializers) (initializer.member :: path) leaf

end Relations

/-! ## What is planned and what is wanted -/

variable {model : ObjectModel Atom} {environment : Environment (ObjectTree Atom)}
  {setting : UpdatePlan.Setting} {declared : Declarations}

/-- Where a construction is written member by member, there is an object to write into. Only
null can stand there instead, and then the constructor succeeds. -/
theorem exists_startsFrom {path : List String} {type declaredType : TypeRef}
    {arguments : List Expr} {first : Initializer} {rest : List Initializer}
    {before wanted : ObjectTree Atom} {context : NullableContext}
    (typed : declared path = some declaredType) (notValue : declaredType.isValue = false)
    (fits : model.Fits context declared path (.construct type arguments (first :: rest)))
    (conforms : Conforms context declared path before)
    (evaluated : model.evaluate environment (.construct type arguments (first :: rest)) =
      some wanted) :
    declaredType.shape ≠ .string ∧
      ∃ content start wantedContent members,
        model.StartsFrom environment type arguments before (.object content start) ∧
        Conforms context declared path (.object content start) ∧
        wanted = .object wantedContent members ∧
        ∀ initializer ∈ first :: rest,
          model.evaluate environment initializer.value = some (members initializer.member) := by
  obtain ⟨createdConform, distinct, -⟩ := fits
  obtain ⟨values, content, created, members, evaluatedArguments, creates, wantedEq,
    evaluatedMembers⟩ := model.evaluate_construct_eq_some distinct evaluated
  have createdConforms := createdConform _ _ creates
  have notString : declaredType.shape ≠ .string := createdConforms.admits typed
  refine ⟨notString, ?_⟩
  cases before with
  | null =>
    refine ⟨content, created, content, members, .inr ⟨rfl, ?_⟩, createdConforms, wantedEq,
      evaluatedMembers⟩
    rw [model.evaluate_construct_nil, evaluatedArguments, Option.bind_some, creates]
  | atom value =>
    rcases conforms.admits typed with isValue | isString
    · rw [TypeRef.isValue, isValue] at notValue
      cases notValue
    · exact absurd isString notString
  | object startContent start =>
    exact ⟨startContent, start, content, members, .inl rfl, conforms, wantedEq,
      evaluatedMembers⟩

/-- Null where an object is constructed makes the planner create the object. -/
theorem needsCreation_of_null {path : List String} {declaredType : TypeRef}
    {before : ObjectTree Atom} {context : NullableContext}
    (typed : declared path = some declaredType) (notValue : declaredType.isValue = false)
    (notString : declaredType.shape ≠ .string) (conforms : Conforms context declared path before)
    (absent : before = .null) :
    (PathInfo.ofType declaredType context).needsCreation = true := by
  have canBeNull : (PathInfo.ofType declaredType context).canBeNull = true :=
    (conforms.admits typed).canBeNull ((ObjectTree.isNull_iff before).2 absent)
  rw [PathInfo.needsCreation, canBeNull, PathInfo.isString_ofType, PathInfo.isValue_ofType,
    notValue, beq_eq_false_iff_ne.2 notString]
  rfl

/-- Creating the object if it is planned gives the object that is written into. -/
theorem StartsFrom.creation {type : TypeRef} {arguments : List Expr}
    {before : ObjectTree Atom} {content : Atom} {start : String → ObjectTree Atom}
    {creates : Bool}
    (started : model.StartsFrom environment type arguments before (.object content start))
    (needed : before = .null → creates = true) :
    (if creates && before.isNull then
      model.evaluate environment (.construct type arguments [])
    else some before) = some (.object content start) := by
  rcases started with rfl | ⟨absent, evaluated⟩
  · rw [ObjectTree.isNull_object, Bool.and_false, if_neg Bool.false_ne_true]
  · rw [needed absent, absent, ObjectTree.isNull, Bool.and_self, if_pos rfl, evaluated]

/-- A value that is stored as a whole is evaluated. -/
theorem exists_stored_whole {path : PropertyPath} {info : PathInfo} {value : Expr}
    {declaredType : TypeRef} {before wanted : ObjectTree Atom}
    (replaced : UpdatePlan.writesInPlace declaredType value = false)
    (storedEq : model.stored environment setting path info value before =
      model.evaluate environment value)
    (evaluated : model.evaluate environment value = some wanted) :
    ∃ after, model.stored environment setting path info value before = some after ∧
      model.Updated environment setting.collections declaredType value before wanted after :=
  ⟨wanted, storedEq.trans evaluated, .whole replaced⟩

private theorem writesInPlace_of_not_hasExpandable {declaredType : TypeRef} {value : Expr}
    (none : UpdatePlan.hasExpandable value = false) :
    UpdatePlan.writesInPlace declaredType value = false := by
  rw [UpdatePlan.writesInPlace, none, Bool.and_false]

mutual

/-- Whenever a value that fits its place evaluates, it can be stored there, and the place
then holds it. -/
theorem exists_stored :
    ∀ (value : Expr) {path : PropertyPath} {declaredType : TypeRef}
      {before wanted : ObjectTree Atom},
      setting.types.Agree setting.context declared →
        declared path.segments = some declaredType →
          model.Fits setting.context declared path.segments value →
            Conforms setting.context declared path.segments before →
              model.evaluate environment value = some wanted →
                ∃ after,
                  model.stored environment setting path
                    (.ofType declaredType setting.context) value before = some after ∧
                  model.Updated environment setting.collections declaredType value before
                    wanted after
  | .literal .., _, _, _, _, _, _, _, _, evaluated =>
    exists_stored_whole (writesInPlace_of_not_hasExpandable rfl) rfl evaluated
  | .parameter .., _, _, _, _, _, _, _, _, evaluated =>
    exists_stored_whole (writesInPlace_of_not_hasExpandable rfl) rfl evaluated
  | .member .., _, _, _, _, _, _, _, _, evaluated =>
    exists_stored_whole (writesInPlace_of_not_hasExpandable rfl) rfl evaluated
  | .call .., _, _, _, _, _, _, _, _, evaluated =>
    exists_stored_whole (writesInPlace_of_not_hasExpandable rfl) rfl evaluated
  | .construct type arguments initializers, path, declaredType, before, wanted, agree, typed,
      fits, conforms, evaluated => by
    have planned :
        (UpdatePlan.isExpandable type initializers &&
            !(PathInfo.ofType declaredType setting.context).isValue) =
          UpdatePlan.writesInPlace declaredType (.construct type arguments initializers) := by
      rw [PathInfo.isValue_ofType, Bool.and_comm]
      simp only [UpdatePlan.writesInPlace, UpdatePlan.branchesQualify,
        UpdatePlan.hasExpandable, Bool.and_true]
    cases inPlace : UpdatePlan.writesInPlace declaredType
        (.construct type arguments initializers) with
    | false =>
      refine exists_stored_whole inPlace ?_ evaluated
      rw [stored, planned, inPlace, if_neg Bool.false_ne_true]
    | true =>
      obtain ⟨notValue, expandable⟩ :
          declaredType.isValue = false ∧
            UpdatePlan.isExpandable type initializers = true := by
        rw [inPlace, Bool.and_eq_true, PathInfo.isValue_ofType, Bool.not_eq_true'] at planned
        exact ⟨planned.2, planned.1⟩
      cases initializers with
      | nil => rw [UpdatePlan.isExpandable] at expandable; simp at expandable
      | cons first rest =>
        obtain ⟨notString, startContent, start, wantedContent, members, started,
          startConforms, rfl, evaluatedMembers⟩ :=
          exists_startsFrom typed notValue fits conforms evaluated
        obtain ⟨after, result, written, kept⟩ :=
          exists_storedMembers (first :: rest) agree fits.2.1 fits.2.2
            (fun initializer _ => startConforms.member initializer.member) evaluatedMembers
        refine ⟨.object startContent after, ?_, .construct inPlace ⟨started, written, kept⟩⟩
        rw [stored, planned, inPlace, if_pos rfl,
          started.creation (needsCreation_of_null typed notValue notString conforms),
          Option.bind_some]
        exact result
  | .conditional condition whenTrue whenFalse type, path, declaredType, before, wanted, agree,
      typed, fits, conforms, evaluated => by
    have planned :
        UpdatePlan.expandsConditional (.conditional condition whenTrue whenFalse type)
            (.ofType declaredType setting.context) =
          UpdatePlan.writesInPlace declaredType
            (.conditional condition whenTrue whenFalse type) := by
      rw [UpdatePlan.expandsConditional, PathInfo.isValue_ofType, UpdatePlan.writesInPlace]
    cases inPlace : UpdatePlan.writesInPlace declaredType
        (.conditional condition whenTrue whenFalse type) with
    | false =>
      refine exists_stored_whole inPlace ?_ evaluated
      rw [stored, planned, inPlace, if_neg Bool.false_ne_true]
    | true =>
      rw [evaluate_conditional_eq] at evaluated
      obtain ⟨holds, decided, evaluated⟩ := Option.bind_eq_some_iff.1 evaluated
      simp only [stored, planned, inPlace, if_true, decided, Option.bind_some]
      cases holds with
      | true =>
        obtain ⟨after, result, updated⟩ :=
          exists_stored whenTrue agree typed fits.1 conforms evaluated
        exact ⟨after, result, .whenTrue inPlace decided updated⟩
      | false =>
        obtain ⟨after, result, updated⟩ :=
          exists_stored whenFalse agree typed fits.2 conforms evaluated
        exact ⟨after, result, .whenFalse inPlace decided updated⟩
  | .coalesce .., _, _, _, _, _, _, _, _, evaluated =>
    exists_stored_whole (writesInPlace_of_not_hasExpandable rfl) rfl evaluated
  | .binary .., _, _, _, _, _, _, _, _, evaluated =>
    exists_stored_whole (writesInPlace_of_not_hasExpandable rfl) rfl evaluated
  | .raise .., _, _, _, _, _, _, _, _, evaluated => nomatch evaluated
  | .projection .., _, _, _, _, _, _, _, _, evaluated =>
    exists_stored_whole (writesInPlace_of_not_hasExpandable rfl) rfl evaluated
  | .guarded .., _, _, _, _, _, _, _, _, evaluated =>
    exists_stored_whole (writesInPlace_of_not_hasExpandable rfl) rfl evaluated
termination_by structural value => value

/-- Members that evaluate can be stored in an object one after the other. -/
theorem exists_storedMembers :
    ∀ (initializers : List Initializer) {path : PropertyPath} {content : Atom}
      {start wanted : String → ObjectTree Atom},
      setting.types.Agree setting.context declared →
        (initializers.map (·.member)).Nodup →
          model.FitMembers setting.context declared path.segments initializers →
            (∀ initializer ∈ initializers,
              Conforms setting.context declared (path.segments ++ [initializer.member])
                (start initializer.member)) →
              (∀ initializer ∈ initializers,
                model.evaluate environment initializer.value =
                  some (wanted initializer.member)) →
                ∃ after,
                  model.storedMembers environment setting path initializers
                    (.object content start) = some (.object content after) ∧
                  (∀ initializer ∈ initializers,
                    setting.collections.skips initializer = false →
                      model.Updated environment setting.collections initializer.memberType
                        initializer.value (start initializer.member)
                        (wanted initializer.member) (after initializer.member)) ∧
                  ∀ name,
                    (∀ initializer ∈ initializers, initializer.member = name →
                      setting.collections.skips initializer = true) →
                      after name = start name
  | [], _, _, start, _, _, _, _, _, _ =>
    ⟨start, rfl, fun _ member => (nomatch member), fun _ _ => rfl⟩
  | ⟨name, type, value⟩ :: rest, path, content, start, wanted, agree, distinct, fit, conforms,
      evaluated => by
    obtain ⟨typed, fits, fitRest⟩ := fit
    rw [List.map_cons, List.nodup_cons] at distinct
    have different : ∀ initializer ∈ rest, initializer.member ≠ name := by
      intro initializer listed same
      exact distinct.1 (List.mem_map.2 ⟨initializer, listed, same⟩)
    have typedMember : declared (path.child name).segments = some type := typed
    have infoEq : setting.infoOf ⟨path, ⟨name, type, value⟩⟩ = .ofType type setting.context :=
      agree.infoOf typedMember
    have planned : setting.skips ⟨path, ⟨name, type, value⟩⟩ =
        setting.collections.skips ⟨name, type, value⟩ := by
      rw [UpdatePlan.Setting.skips, infoEq, PathInfo.isCollection_ofType, Bool.and_comm]
      rfl
    cases skipped : setting.collections.skips ⟨name, type, value⟩ with
    | true =>
      obtain ⟨after, result, written, kept⟩ :=
        exists_storedMembers rest agree distinct.2 fitRest
          (fun initializer listed => conforms initializer (List.mem_cons_of_mem _ listed))
          (fun initializer listed => evaluated initializer (List.mem_cons_of_mem _ listed))
      refine ⟨after, ?_, ?_, ?_⟩
      · simp only [storedMembers, storedMember, planned, skipped, if_true, Option.bind_some]
        exact result
      · intro initializer listed notSkipped
        rcases List.mem_cons.1 listed with same | later
        · rw [same, skipped] at notSkipped
          cases notSkipped
        · exact written initializer later notSkipped
      · intro other unset
        exact kept other fun initializer listed =>
          unset initializer (List.mem_cons_of_mem _ listed)
    | false =>
      have startConforms :
          Conforms setting.context declared (path.child name).segments (start name) :=
        conforms _ List.mem_cons_self
      have valueEvaluated : model.evaluate environment value = some (wanted name) :=
        evaluated _ List.mem_cons_self
      obtain ⟨stored, storedEq, updated⟩ :=
        exists_stored value agree typedMember fits startConforms valueEvaluated
      -- The rest of the members starts from the object with this member written.
      let next : String → ObjectTree Atom :=
        fun other => if other = name then stored else start other
      have nextSame : next name = stored := if_pos rfl
      have nextOther : ∀ other, other ≠ name → next other = start other :=
        fun other otherName => if_neg otherName
      have nextConforms : ∀ initializer ∈ rest,
          Conforms setting.context declared (path.segments ++ [initializer.member])
            (next initializer.member) := by
        intro initializer listed
        rw [nextOther _ (different initializer listed)]
        exact conforms initializer (List.mem_cons_of_mem _ listed)
      obtain ⟨after, result, written, kept⟩ :=
        exists_storedMembers rest agree distinct.2 fitRest nextConforms
          (fun initializer listed => evaluated initializer (List.mem_cons_of_mem _ listed))
      refine ⟨after, ?_, ?_, ?_⟩
      · simp only [storedMembers, storedMember, planned, skipped, Bool.false_eq_true, if_false]
        rw [infoEq, ObjectTree.member?_object, Option.bind_some, storedEq, Option.bind_some,
          ObjectTree.setMember?, Option.bind_some]
        exact result
      · intro initializer listed notSkipped
        rcases List.mem_cons.1 listed with same | later
        · have afterName : after name = stored := by
            rw [kept name fun other listed same => absurd same (different other listed), nextSame]
          rw [same]
          show model.Updated environment setting.collections type value (start name)
            (wanted name) (after name)
          rw [afterName]
          exact updated
        · rw [← nextOther _ (different initializer later)]
          exact written initializer later notSkipped
      · intro other unset
        have otherName : other ≠ name := by
          intro same
          have isSkipped := unset _ List.mem_cons_self same.symm
          rw [skipped] at isSkipped
          cases isSkipped
        rw [← nextOther other otherName]
        exact kept other fun initializer listed =>
          unset initializer (List.mem_cons_of_mem _ listed)
termination_by structural initializers => initializers

end

/-! ## Agreement member by member -/

variable {policy : CollectionPolicy}

/-- A member that is set once and not skipped was updated like any other place. -/
theorem Rebuilt.member {type : TypeRef} {arguments : List Expr}
    {initializers : List Initializer} {initializer : Initializer}
    {before wanted after : ObjectTree Atom}
    (rebuilt : model.Rebuilt environment policy (.construct type arguments initializers) before
      wanted after)
    (listed : initializer ∈ initializers) (notSkipped : policy.skips initializer = false) :
    ∃ memberBefore memberWanted memberAfter,
      wanted.member? initializer.member = some memberWanted ∧
      after.member? initializer.member = some memberAfter ∧
      model.Updated environment policy initializer.memberType initializer.value memberBefore
        memberWanted memberAfter := by
  cases rebuilt with
  | mk started written kept => exact ⟨_, _, _, rfl, rfl, written initializer listed notSkipped⟩

/-- An updated place agrees with the wanted value wherever a whole value was written. -/
theorem Updated.get?_eq {value leaf : Expr} {path : List String}
    (initializes : model.Initializes environment policy value path leaf)
    (whole : leaf.isWhole = true) :
    ∀ {declaredType : TypeRef} {before wanted after : ObjectTree Atom},
      model.Updated environment policy declaredType value before wanted after →
        after.get? path = wanted.get? path := by
  induction initializes with
  | here expr =>
    intro declaredType before wanted after updated
    cases updated with
    | whole replaced => rfl
    | whenTrue inPlace holds updated => cases whole
    | whenFalse inPlace fails updated => cases whole
    | @construct _ type arguments initializers _ _ _ inPlace rebuilt =>
      cases initializers with
      | nil =>
        simp [UpdatePlan.writesInPlace, UpdatePlan.hasExpandable,
          UpdatePlan.isExpandable] at inPlace
      | cons first rest => cases whole
  | whenTrue holds below inductionHypothesis =>
    intro declaredType before wanted after updated
    cases updated with
    | whole replaced => rfl
    | whenTrue inPlace holds updated => exact inductionHypothesis whole updated
    | whenFalse inPlace fails updated => exact absurd (fails.symm.trans holds) (by simp)
  | whenFalse fails below inductionHypothesis =>
    intro declaredType before wanted after updated
    cases updated with
    | whole replaced => rfl
    | whenTrue inPlace holds updated => exact absurd (fails.symm.trans holds) (by simp)
    | whenFalse inPlace fails updated => exact inductionHypothesis whole updated
  | member listed notSkipped below inductionHypothesis =>
    intro declaredType before wanted after updated
    cases updated with
    | whole replaced => rfl
    | construct inPlace rebuilt =>
      obtain ⟨memberBefore, memberWanted, memberAfter, wantedEq, afterEq, updated⟩ :=
        rebuilt.member listed notSkipped
      rw [ObjectTree.get?, ObjectTree.get?, wantedEq, afterEq]
      exact inductionHypothesis whole updated

/-- A rebuilt object agrees with the wanted one wherever a whole value was written. -/
theorem Rebuilt.get?_eq {type : TypeRef} {arguments : List Expr} {first : Initializer}
    {rest : List Initializer} {leaf : Expr} {path : List String}
    {before wanted after : ObjectTree Atom}
    (rebuilt : model.Rebuilt environment policy (.construct type arguments (first :: rest))
      before wanted after)
    (initializes : model.Initializes environment policy
      (.construct type arguments (first :: rest)) path leaf)
    (whole : leaf.isWhole = true) :
    after.get? path = wanted.get? path := by
  cases initializes with
  | here => cases whole
  | member listed notSkipped below =>
    obtain ⟨memberBefore, memberWanted, memberAfter, wantedEq, afterEq, updated⟩ :=
      rebuilt.member listed notSkipped
    rw [ObjectTree.get?, ObjectTree.get?, wantedEq, afterEq]
    exact Updated.get?_eq below whole updated

/-- What a path of a body leads to evaluates, to what the value of the body holds there. -/
theorem Initializes.exists_get? {expr leaf : Expr} {path : List String} {context : NullableContext}
    (initializes : model.Initializes environment policy expr path leaf) :
    ∀ {base : List String} {wanted : ObjectTree Atom},
      model.Fits context declared base expr →
        model.evaluate environment expr = some wanted →
          ∃ value, model.evaluate environment leaf = some value ∧
            wanted.get? path = some value := by
  induction initializes with
  | here expr =>
    intro base wanted fits evaluated
    exact ⟨wanted, evaluated, rfl⟩
  | whenTrue holds below inductionHypothesis =>
    intro base wanted fits evaluated
    rw [evaluate_conditional_eq, holds, Option.bind_some, if_pos rfl] at evaluated
    exact inductionHypothesis fits.1 evaluated
  | whenFalse fails below inductionHypothesis =>
    intro base wanted fits evaluated
    rw [evaluate_conditional_eq, fails, Option.bind_some, if_neg Bool.false_ne_true]
      at evaluated
    exact inductionHypothesis fits.2 evaluated
  | @member type arguments initializers initializer leaf path listed notSkipped below
      inductionHypothesis =>
    intro base wanted fits evaluated
    obtain ⟨first, rest, rfl⟩ := List.exists_cons_of_ne_nil (List.ne_nil_of_mem listed)
    obtain ⟨-, distinct, fit⟩ := fits
    obtain ⟨values, content, start, members, -, -, rfl, evaluatedMembers⟩ :=
      model.evaluate_construct_eq_some distinct evaluated
    rw [ObjectTree.get?, ObjectTree.member?_object, Option.bind_some]
    exact inductionHypothesis (fit.of_mem listed).2 (evaluatedMembers initializer listed)

end ObjectModel

end MappingForms
