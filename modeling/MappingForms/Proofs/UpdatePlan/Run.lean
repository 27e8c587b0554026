import MappingForms.Proofs.UpdatePlan.Agreement
import MappingForms.Proofs.UpdatePlan.Writes

/-!
Contract: the run of an update procedure.

Owns: when the early return of a plan is taken, and the law that the run returns the
destination with the value of the body written into it.

The early return is taken for a null source, and for a null destination that cannot
be created. Where a type cannot be null the plan has no test for it, and none is
missed, since no null is admitted there.
-/

set_option autoImplicit false

namespace MappingForms

variable {Atom : Type}

namespace UpdatePlan

/-- The destination is not named like the source. -/
theorem destName_ne (sourceName : String) : destName sourceName ≠ sourceName := by
  unfold destName
  by_cases isDest : sourceName = "dest"
  · rw [if_pos isDest, isDest]
    decide
  · rw [if_neg isDest]
    exact fun same => isDest same.symm

/-- Whether an update leaves a destination as it is. -/
def declines (spec : Specification) (source dest : ObjectTree Atom) : Bool :=
  source.isNull || (dest.isNull && !spec.returnType.constructible)

/-- A null destination that is not declined is one that the plan creates. -/
theorem creates_of_accepted {spec : Specification} {context : NullableContext}
    {source dest : ObjectTree Atom} (admitted : spec.returnType.Admits context dest)
    (accepted : declines spec source dest = false) (absent : dest = .null) :
    (spec.returnType.canBeNull context && spec.returnType.constructible) = true := by
  have canBeNull := admitted.canBeNull ((ObjectTree.isNull_iff dest).2 absent)
  rw [declines, Bool.or_eq_false_iff, absent, ObjectTree.isNull, Bool.true_and,
    Bool.not_eq_false'] at accepted
  rw [canBeNull, accepted.2, Bool.and_self]

/-! ## The variables at the start -/

def startOf (spec : Specification) (source dest : ObjectTree Atom) :
    Environment (ObjectTree Atom) :=
  (Environment.single spec.parameter.name source).bind (destName spec.parameter.name) dest

private theorem startOf_source (spec : Specification) (source dest : ObjectTree Atom) :
    startOf spec source dest spec.parameter.name = some source := by
  rw [startOf, Environment.bind_other _ _ (destName_ne _).symm, Environment.single_same]

private theorem startOf_dest (spec : Specification) (source dest : ObjectTree Atom) :
    startOf spec source dest (destName spec.parameter.name) = some dest :=
  Environment.bind_same ..

private theorem get?_startOf (spec : Specification) (source dest : ObjectTree Atom) :
    (startOf spec source dest).get? (rootOf spec) = some dest := by
  rw [Environment.get?, rootOf, startOf_dest]
  rfl

private theorem agreeOff_startOf (spec : Specification) (source dest : ObjectTree Atom) :
    ObjectModel.AgreeOff (rootOf spec).root (startOf spec source dest)
      (.single spec.parameter.name source) :=
  fun _ different => Environment.bind_other _ _ different

end UpdatePlan

namespace ObjectModel

variable {model : ObjectModel Atom} {environment : Environment (ObjectTree Atom)}

/-! ## The early return -/

private theorem holds_isNullCheck {name : String} {type : TypeRef} {value : ObjectTree Atom}
    (bound : environment name = some value) :
    model.holds environment (Expr.parameter name type).isNullCheck = some value.isNull := by
  have evaluated : model.evaluate environment (.parameter name type) = some value :=
    (model.evaluate_parameter ..).trans bound
  rw [holds, evaluate, model.evaluate_isNullCheck _ evaluated, Option.bind_some,
    model.truth_ofBool, model.isNull_eq]

/-- A null check that is planned wherever it could hold decides whether a value is null. -/
theorem anyHolds_isNullCheck {name : String} {type : TypeRef} {value : ObjectTree Atom}
    {planned : Bool} (bound : environment name = some value)
    (needed : value.isNull = true → planned = true) (others : List Expr) :
    model.anyHolds environment
        ((if planned then [(Expr.parameter name type).isNullCheck] else []) ++ others) =
      if value.isNull then some true else model.anyHolds environment others := by
  by_cases isPlanned : planned = true
  · rw [if_pos isPlanned, List.singleton_append, anyHolds, holds_isNullCheck bound,
      Option.bind_some]
  · have present : ¬value.isNull = true := fun isNull => isPlanned (needed isNull)
    rw [if_neg isPlanned, List.nil_append, if_neg present]

private theorem anyHolds_guardConditions {spec : Specification} {context : NullableContext}
    {source dest : ObjectTree Atom}
    (sourceAdmitted : spec.parameter.type.Admits context source)
    (destAdmitted : spec.returnType.Admits context dest) :
    model.anyHolds (UpdatePlan.startOf spec source dest)
        (UpdatePlan.guardConditions spec
          ⟨UpdatePlan.destName spec.parameter.name, spec.returnType⟩ context) =
      some (UpdatePlan.declines spec source dest) := by
  unfold UpdatePlan.guardConditions UpdatePlan.declines
  rw [anyHolds_isNullCheck (UpdatePlan.startOf_source ..) sourceAdmitted.canBeNull]
  cases source.isNull with
  | true => rfl
  | false =>
    rw [if_neg Bool.false_ne_true, Bool.false_or]
    cases spec.returnType.constructible with
    | true =>
      rw [Bool.not_true, Bool.and_false, Bool.and_false, if_neg Bool.false_ne_true, anyHolds]
    | false =>
      rw [Bool.not_false, Bool.and_true, Bool.and_true, ← List.append_nil (ite _ _ _),
        anyHolds_isNullCheck (UpdatePlan.startOf_dest ..) destAdmitted.canBeNull, anyHolds]
      cases dest.isNull <;> rfl

private theorem executeAll_earlyReturn {conditions : List Expr} {path : PropertyPath} {holds : Bool}
    {value : ObjectTree Atom} (decided : model.anyHolds environment conditions = some holds)
    (located : environment.get? path = some value) :
    model.executeAll environment (UpdatePlan.earlyReturn conditions path) =
      some (if holds then .returned value else .next environment) := by
  cases conditions with
  | nil =>
    obtain rfl : false = holds := Option.some.inj decided
    rfl
  | cons first rest =>
    show model.executeAll environment [.returnIf (first :: rest) path] = _
    rw [executeAll_singleton, execute, decided, Option.bind_some, located]
    cases holds <;> rfl

private theorem executeAll_guard (model : ObjectModel Atom) {spec : Specification}
    {context : NullableContext} {source dest : ObjectTree Atom}
    (sourceAdmitted : spec.parameter.type.Admits context source)
    (destAdmitted : spec.returnType.Admits context dest) :
    model.executeAll (UpdatePlan.startOf spec source dest)
        (UpdatePlan.earlyReturn
          (UpdatePlan.guardConditions spec
            ⟨UpdatePlan.destName spec.parameter.name, spec.returnType⟩ context)
          (UpdatePlan.rootOf spec)) =
      some (if UpdatePlan.declines spec source dest then .returned dest
        else .next (UpdatePlan.startOf spec source dest)) :=
  executeAll_earlyReturn (anyHolds_guardConditions sourceAdmitted destAdmitted)
    (UpdatePlan.get?_startOf ..)

/-! ## The whole run -/

section

variable {spec : Specification} {body : Expr} {context : NullableContext} {plan : UpdatePlan}
  {declared : Declarations} {source dest : ObjectTree Atom}

private theorem run_eq_some {result : ObjectTree Atom} (sourceEq : plan.source = spec.parameter)
    (destEq : plan.dest = ⟨UpdatePlan.destName spec.parameter.name, spec.returnType⟩)
    (executed : model.executeAll (UpdatePlan.startOf spec source dest) plan.statements =
      some (.returned result)) :
    model.run plan source dest = some result := by
  rw [UpdatePlan.startOf] at executed
  simp only [run, sourceEq, destEq, executed]

/-- A declined update returns the destination. -/
theorem run_of_declines (planned : UpdatePlan.ofBody spec body context = .ok plan)
    (sourceAdmitted : spec.parameter.type.Admits context source)
    (destAdmitted : spec.returnType.Admits context dest)
    (declines : UpdatePlan.declines spec source dest = true) :
    model.run plan source dest = some dest := by
  obtain ⟨-, type, arguments, first, rest, -, sourceEq, destEq, statementsEq⟩ :=
    UpdatePlan.ofBody_eq_ok planned
  apply run_eq_some sourceEq destEq
  rw [statementsEq, destEq]
  apply executeAll_append_of_returned
  rw [executeAll_guard model sourceAdmitted destAdmitted, declines, if_pos rfl]

/-- An update that is not declined succeeds whenever the body evaluates, and writes the
value of the body into the destination. -/
theorem exists_run (planned : UpdatePlan.ofBody spec body context = .ok plan)
    (readsSource : ∀ name ∈ body.freeNames, name = spec.parameter.name)
    (rootDeclared : declared [] = some spec.returnType)
    (fits : model.Fits context declared [] body)
    (sourceAdmitted : spec.parameter.type.Admits context source)
    (destConforms : Conforms context declared [] dest)
    (accepted : UpdatePlan.declines spec source dest = false) {wanted : ObjectTree Atom}
    (evaluated : model.evaluate (.single spec.parameter.name source) body = some wanted) :
    ∃ result, model.run plan source dest = some result ∧
      model.Rebuilt (.single spec.parameter.name source) spec.options.collections body dest
        wanted result := by
  obtain ⟨notValue, type, arguments, first, rest, rfl, sourceEq, destEq, statementsEq⟩ :=
    UpdatePlan.ofBody_eq_ok planned
  have unread : (UpdatePlan.rootOf spec).root ∉
      (Expr.construct type arguments (first :: rest)).freeNames :=
    fun free => UpdatePlan.destName_ne _ (readsSource _ free)
  rw [Expr.freeNames, List.mem_append, not_or] at unread
  have agree : (UpdatePlan.settingOf spec (.construct type arguments (first :: rest))
      context).types.Agree context declared :=
    PathTypes.agree_ofBody rootDeclared fits
  have fitRoot : model.FitMembers context declared (UpdatePlan.rootOf spec).segments
      (first :: rest) := fits.2.2
  obtain ⟨-, startContent, start, wantedContent, members, started, startConforms, rfl,
    evaluatedMembers⟩ := exists_startsFrom rootDeclared notValue fits destConforms evaluated
  have membersConform : ∀ initializer ∈ first :: rest,
      Conforms context declared ((UpdatePlan.rootOf spec).segments ++ [initializer.member])
        (start initializer.member) :=
    fun initializer _ => startConforms.member initializer.member
  obtain ⟨after, result, written, kept⟩ :=
    exists_storedMembers (first :: rest) agree fits.2.1 fitRoot membersConform evaluatedMembers
  refine ⟨.object startContent after, ?_, started, written, kept⟩
  have destAdmitted := destConforms.admits rootDeclared
  have passed := model.executeAll_guard sourceAdmitted destAdmitted
  rw [accepted, if_neg Bool.false_ne_true] at passed
  have created := started.creation (UpdatePlan.creates_of_accepted destAdmitted accepted)
  obtain ⟨prepared, placed, executedCreation⟩ :=
    model.executeAll_creation _ (UpdatePlan.agreeOff_startOf spec source dest) unread.1
      (UpdatePlan.get?_startOf spec source dest) created
  obtain ⟨changed, written, executedMembers⟩ :=
    model.executeAll_storeMembers (first :: rest)
      ((UpdatePlan.agreeOff_startOf spec source dest).set? placed) unread.2
      (Environment.get?_of_set? placed) result
  apply run_eq_some sourceEq destEq
  rw [statementsEq, destEq, model.executeAll_append_of_next _ passed,
    model.executeAll_append_of_next _ executedCreation,
    model.executeAll_append_of_next _ executedMembers, executeAll_singleton, execute,
    Environment.get?_of_set? written, Option.map_some]

/-- An update procedure computes what its mapping body computes.

If the source is null, or the destination is null and cannot be created, the destination is
returned as it is. Otherwise, whenever the body evaluates to a value, the run returns the
destination with this value written into it, and at every path that the body sets, the result
and the value of the body both hold what is set there. -/
theorem run_agrees_with_body (model : ObjectModel Atom)
    (planned : UpdatePlan.ofBody spec body context = .ok plan)
    (readsSource : ∀ name ∈ body.freeNames, name = spec.parameter.name)
    (rootDeclared : declared [] = some spec.returnType)
    (fits : model.Fits context declared [] body)
    (sourceAdmitted : spec.parameter.type.Admits context source)
    (destConforms : Conforms context declared [] dest) :
    (UpdatePlan.declines spec source dest = true → model.run plan source dest = some dest) ∧
    (UpdatePlan.declines spec source dest = false → ∀ wanted,
      model.evaluate (.single spec.parameter.name source) body = some wanted →
        ∃ result, model.run plan source dest = some result ∧
          model.Rebuilt (.single spec.parameter.name source) spec.options.collections body
            dest wanted result ∧
          ∀ path leaf,
            model.Initializes (.single spec.parameter.name source) spec.options.collections
              body path leaf →
            leaf.isWhole = true →
              ∃ value, model.evaluate (.single spec.parameter.name source) leaf = some value ∧
                wanted.get? path = some value ∧ result.get? path = some value) := by
  refine ⟨run_of_declines planned sourceAdmitted (destConforms.admits rootDeclared), ?_⟩
  intro accepted wanted evaluated
  obtain ⟨result, run, rebuilt⟩ :=
    exists_run planned readsSource rootDeclared fits sourceAdmitted destConforms accepted evaluated
  refine ⟨result, run, rebuilt, ?_⟩
  intro path leaf initializes whole
  obtain ⟨value, leafEvaluated, wantedHolds⟩ := initializes.exists_get? fits evaluated
  obtain ⟨-, type, arguments, first, rest, rfl, -⟩ := UpdatePlan.ofBody_eq_ok planned
  exact ⟨value, leafEvaluated, wantedHolds,
    (rebuilt.get?_eq initializes whole).trans wantedHolds⟩

end

end ObjectModel

/-! ## Copying a person with a home -/

namespace PersonCopy

def textType : TypeRef := { name := "string", shape := .string, nullable := true }

def addressType : TypeRef := { name := "Address", shape := .reference, nullable := true }

def personType : TypeRef := .reference "Person"

def sourceHome : Expr := .member (.parameter "s" personType) "Home" false addressType

/-- `new Person { Home = s.Home == null ? null : new Address { City = s.Home.City } }` -/
def body : Expr :=
  .construct personType [] [⟨"Home", addressType,
    .conditional sourceHome.isNullCheck (.literal .null addressType)
      (.construct addressType [] [⟨"City", textType, .member sourceHome "City" false textType⟩])
      addressType⟩]

def spec : Specification where
  id := ⟨"People", "Copy", "Person"⟩
  scope := ⟨none, "People", true⟩
  parameter := ⟨"s", personType⟩
  returnType := personType
  body := body
  options := ⟨true, true, .keep, .generate⟩
  span := {}

def declarations : Declarations
  | [] => some personType
  | ["Home"] => some addressType
  | ["Home", "City"] => some textType
  | _ => none

def personInOslo : ObjectTree Literal :=
  .object (.string "Person") fun _ => .object (.string "Address") fun _ => .atom (.string "Oslo")

def personWithoutHome : ObjectTree Literal := .object (.string "Person") fun _ => .null

/-- Constructors leave null in every member. -/
def model : ObjectModel Literal := .plain fun _ _ => .null

/-- A person or an address with null in every member conforms. -/
theorem conforms_blank {path : List String} (isObject : path = [] ∨ path = ["Home"])
    (content : Literal) :
    Conforms .enabled declarations path (.object content fun _ => .null) := by
  intro below value located type typed
  cases below with
  | nil =>
    obtain rfl := Option.some.inj located
    rcases isObject with rfl | rfl <;> cases typed <;> exact nofun
  | cons name rest =>
    cases rest with
    | nil =>
      obtain rfl := Option.some.inj located
      unfold declarations at typed
      split at typed
      · rename_i isRoot
        exact (List.append_ne_nil_of_right_ne_nil _ (List.cons_ne_nil _ _) isRoot).elim
      · cases typed
        rfl
      · cases typed
        rfl
      · cases typed
    | cons next others => cases located

private theorem fits_body : model.Fits .enabled declarations [] body := by
  refine ⟨?_, by decide, rfl, ⟨trivial, ?_, by decide, rfl, trivial, trivial⟩, trivial⟩
  · intro arguments created creates
    obtain rfl := Option.some.inj creates
    exact conforms_blank (.inl rfl) _
  · intro arguments created creates
    obtain rfl := Option.some.inj creates
    exact conforms_blank (.inr rfl) _

/-- The missing home is created, and the city is written into it. -/
theorem run_writes_city :
    ∃ plan result, UpdatePlan.ofBody spec body .enabled = .ok plan ∧
      model.run plan personInOslo personWithoutHome = some result ∧
      result.get? ["Home", "City"] = some (.atom (.string "Oslo")) := by
  obtain ⟨plan, planned⟩ : ∃ plan, UpdatePlan.ofBody spec body .enabled = .ok plan :=
    ⟨_, rfl⟩
  have sourceAdmitted : personType.Admits .enabled personInOslo := nofun
  have destConforms : Conforms .enabled declarations [] personWithoutHome :=
    conforms_blank (.inl rfl) _
  obtain ⟨result, run, -, agrees⟩ :=
    (ObjectModel.run_agrees_with_body model planned (by decide) rfl fits_body sourceAdmitted
      destConforms).2 rfl _ rfl
  obtain ⟨value, evaluated, -, held⟩ :=
    agrees ["Home", "City"] (.member sourceHome "City" false textType)
      (.member List.mem_cons_self rfl (.whenFalse rfl
        (.member List.mem_cons_self rfl (.here _)))) rfl
  obtain rfl := Option.some.inj evaluated
  exact ⟨plan, result, planned, run, held⟩

end PersonCopy

end MappingForms
