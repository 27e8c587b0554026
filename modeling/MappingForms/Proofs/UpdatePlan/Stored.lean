import MappingForms.Proofs.UpdatePlan.Execution

/-!
Contract: what the statements of a plan leave at the path that they write.

Owns: the value that a place holds after a value has been stored there, computed
from what the place held before, and the law that the planned statements write
exactly this value at their path and nothing else.

Statements work on whole paths from a variable. What they do is local: everything
they read besides the source is below their path, so their effect is a function of
the place alone. The expressions of a plan must not read the variable that the plan
writes.
-/

set_option autoImplicit false

namespace MappingForms

namespace ObjectModel

variable {Atom : Type} (model : ObjectModel Atom)
  (environment : Environment (ObjectTree Atom)) (setting : UpdatePlan.Setting)

mutual

/-- What a place holds after a value has been stored there. -/
def stored (path : PropertyPath) (info : PathInfo) (value : Expr) (before : ObjectTree Atom) :
    Option (ObjectTree Atom) :=
  match value with
  | .construct type arguments initializers =>
    if UpdatePlan.isExpandable type initializers && !info.isValue then
      (if info.needsCreation && before.isNull then
        model.evaluate environment (.construct type arguments [])
      else
        some before).bind (storedMembers path initializers)
    else
      model.evaluate environment (.construct type arguments initializers)
  | .conditional condition whenTrue whenFalse type =>
    if UpdatePlan.expandsConditional (.conditional condition whenTrue whenFalse type) info then
      (model.holds environment condition).bind fun holds =>
        if holds then stored path info whenTrue before else stored path info whenFalse before
    else
      model.evaluate environment (.conditional condition whenTrue whenFalse type)
  | value => model.evaluate environment value
termination_by structural value

def storedMembers (path : PropertyPath) :
    List Initializer → ObjectTree Atom → Option (ObjectTree Atom)
  | [], object => some object
  | first :: rest, object => (storedMember path first object).bind (storedMembers path rest)
termination_by structural initializers => initializers

/-- An object after one of its members has been stored, unless it is skipped. -/
def storedMember (path : PropertyPath) :
    Initializer → ObjectTree Atom → Option (ObjectTree Atom)
  | ⟨name, declared, value⟩, object =>
    let write : UpdatePlan.MemberWrite := ⟨path, ⟨name, declared, value⟩⟩
    if setting.skips write then
      some object
    else
      ((object.member? name).bind (stored (path.child name) (setting.infoOf write) value)).bind
        (object.setMember? name)
termination_by structural initializer => initializer

end

/-- Two environments that differ in one variable at most. -/
def AgreeOff (root : String) (left right : Environment (ObjectTree Atom)) : Prop :=
  ∀ name, name ≠ root → left name = right name

variable {environment} {current : Environment (ObjectTree Atom)}

/-- A write below a variable changes no other variable. -/
theorem AgreeOff.set? {path : PropertyPath} {value : ObjectTree Atom}
    {changed : Environment (ObjectTree Atom)}
    (agree : AgreeOff path.root current environment)
    (written : current.set? path value = some changed) :
    AgreeOff path.root changed environment := by
  intro name different
  rw [Environment.apply_of_set? written different, agree name different]

/-- An expression that does not read a variable has the same value whatever the variable holds. -/
theorem AgreeOff.evaluate {root : String} {expr : Expr}
    (agree : AgreeOff root current environment) (unread : root ∉ expr.freeNames) :
    model.evaluate current expr = model.evaluate environment expr := by
  refine model.evaluate_congr _ fun name free => agree name ?_
  intro same
  exact unread (same ▸ free)

theorem AgreeOff.holds {root : String} {condition : Expr}
    (agree : AgreeOff root current environment) (unread : root ∉ condition.freeNames) :
    model.holds current condition = model.holds environment condition := by
  unfold ObjectModel.holds
  rw [agree.evaluate model unread]

/-- Assigning an expression leaves its value at the path. -/
theorem executeAll_assign {path : PropertyPath} {value : Expr} {before after : ObjectTree Atom}
    (agree : AgreeOff path.root current environment) (unread : path.root ∉ value.freeNames)
    (located : current.get? path = some before)
    (evaluated : model.evaluate environment value = some after) :
    ∃ changed, current.set? path after = some changed ∧
      model.executeAll current [.assign path value] = some (.next changed) := by
  obtain ⟨changed, written⟩ := Environment.exists_set? located after
  refine ⟨changed, written, ?_⟩
  rw [executeAll_singleton, execute, agree.evaluate model unread, evaluated, Option.bind_some,
    written]
  rfl

/-- Creating an object where there is none leaves what was there or the new object. -/
theorem executeAll_creation {path : PropertyPath} {type : TypeRef} {arguments : List Expr}
    {before base : ObjectTree Atom} (creates : Bool)
    (agree : AgreeOff path.root current environment)
    (unread : path.root ∉ Expr.freeNamesOfAll arguments)
    (located : current.get? path = some before)
    (started : (if creates && before.isNull then
        model.evaluate environment (.construct type arguments [])
      else some before) = some base) :
    ∃ prepared, current.set? path base = some prepared ∧
      model.executeAll current
        (if creates then [.ensureCreated path (.construct type arguments [])] else []) =
          some (.next prepared) := by
  by_cases absent : (creates && before.isNull) = true
  · rw [if_pos absent] at started
    rw [Bool.and_eq_true] at absent
    obtain ⟨prepared, written⟩ := Environment.exists_set? located base
    have unreadCreation : path.root ∉ (Expr.construct type arguments []).freeNames := by
      simpa [Expr.freeNames, Expr.freeNamesOfInitializers] using unread
    refine ⟨prepared, written, ?_⟩
    rw [if_pos absent.1, executeAll_singleton, execute, located, Option.bind_some,
      if_pos absent.2, agree.evaluate model unreadCreation, started, Option.bind_some, written]
    rfl
  · rw [if_neg absent] at started
    obtain rfl : before = base := Option.some.inj started
    refine ⟨current, Environment.set?_get? located, ?_⟩
    by_cases planned : creates = true
    · rw [planned, Bool.true_and] at absent
      rw [if_pos planned, executeAll_singleton, execute, located, Option.bind_some,
        if_neg absent]
    · rw [if_neg planned, executeAll]

variable {setting}

mutual

/-- The statements that store a value leave at their path what `stored` says. -/
theorem executeAll_storeValue :
    ∀ (value : Expr) {path : PropertyPath} {info : PathInfo}
      {current : Environment (ObjectTree Atom)} {before after : ObjectTree Atom},
      AgreeOff path.root current environment → path.root ∉ value.freeNames →
        current.get? path = some before →
          model.stored environment setting path info value before = some after →
            ∃ changed, current.set? path after = some changed ∧
              model.executeAll current (UpdatePlan.storeValue setting path info value) =
                some (.next changed)
  | .literal .., _, _, _, _, _, agree, unread, located, result =>
    model.executeAll_assign agree unread located result
  | .parameter .., _, _, _, _, _, agree, unread, located, result =>
    model.executeAll_assign agree unread located result
  | .member .., _, _, _, _, _, agree, unread, located, result =>
    model.executeAll_assign agree unread located result
  | .call .., _, _, _, _, _, agree, unread, located, result =>
    model.executeAll_assign agree unread located result
  | .construct type arguments initializers, path, info, current, before, after, agree, unread,
      located, result => by
    rw [stored] at result
    rw [UpdatePlan.storeValue]
    by_cases inPlace : (UpdatePlan.isExpandable type initializers && !info.isValue) = true
    · rw [if_pos inPlace] at result ⊢
      obtain ⟨base, started, result⟩ := Option.bind_eq_some_iff.1 result
      simp only [Expr.freeNames, List.mem_append, not_or] at unread
      obtain ⟨prepared, placed, created⟩ :=
        model.executeAll_creation info.needsCreation agree unread.1 located started
      obtain ⟨changed, written, executed⟩ :=
        executeAll_storeMembers initializers (agree.set? placed) unread.2
          (Environment.get?_of_set? placed) result
      refine ⟨changed, (Environment.set?_set? placed after) ▸ written, ?_⟩
      rw [model.executeAll_append_of_next _ created, executed]
    · rw [if_neg inPlace] at result ⊢
      exact model.executeAll_assign agree unread located result
  | .conditional condition whenTrue whenFalse type, path, info, current, before, after, agree,
      unread, located, result => by
    rw [stored] at result
    rw [UpdatePlan.storeValue]
    by_cases expands : UpdatePlan.expandsConditional
        (.conditional condition whenTrue whenFalse type) info = true
    · rw [if_pos expands] at result ⊢
      obtain ⟨holds, decided, result⟩ := Option.bind_eq_some_iff.1 result
      simp only [Expr.freeNames, List.mem_append, not_or] at unread
      rw [executeAll_singleton, execute, agree.holds model unread.1, decided, Option.bind_some]
      cases holds with
      | true => exact executeAll_storeValue whenTrue agree unread.2.1 located result
      | false => exact executeAll_storeValue whenFalse agree unread.2.2 located result
    · rw [if_neg expands] at result ⊢
      exact model.executeAll_assign agree unread located result
  | .coalesce .., _, _, _, _, _, agree, unread, located, result =>
    model.executeAll_assign agree unread located result
  | .binary .., _, _, _, _, _, agree, unread, located, result =>
    model.executeAll_assign agree unread located result
  | .raise .., _, _, _, _, _, _, _, _, result => nomatch result
  | .projection .., _, _, _, _, _, agree, unread, located, result =>
    model.executeAll_assign agree unread located result
  | .guarded .., _, _, _, _, _, agree, unread, located, result =>
    model.executeAll_assign agree unread located result
termination_by structural value => value

/-- The statements that write members leave at the path of their object what
`storedMembers` says. -/
theorem executeAll_storeMembers :
    ∀ (initializers : List Initializer) {path : PropertyPath}
      {current : Environment (ObjectTree Atom)} {before after : ObjectTree Atom},
      AgreeOff path.root current environment →
        path.root ∉ Expr.freeNamesOfInitializers initializers →
          current.get? path = some before →
            model.storedMembers environment setting path initializers before = some after →
              ∃ changed, current.set? path after = some changed ∧
                model.executeAll current (UpdatePlan.storeMembers setting path initializers) =
                  some (.next changed)
  | [], _, current, _, _, _, _, located, result => by
    rw [storedMembers, Option.some.injEq] at result
    subst result
    exact ⟨current, Environment.set?_get? located, rfl⟩
  | first :: rest, path, current, before, after, agree, unread, located, result => by
    rw [storedMembers] at result
    rw [UpdatePlan.storeMembers]
    obtain ⟨name, declared, value⟩ := first
    simp only [Expr.freeNamesOfInitializers, List.mem_append, not_or] at unread
    obtain ⟨middle, first, result⟩ := Option.bind_eq_some_iff.1 result
    obtain ⟨reached, placed, executedFirst⟩ :=
      executeAll_storeMember ⟨name, declared, value⟩ agree unread.1 located first
    obtain ⟨changed, written, executedRest⟩ :=
      executeAll_storeMembers rest (agree.set? placed) unread.2
        (Environment.get?_of_set? placed) result
    refine ⟨changed, (Environment.set?_set? placed after) ▸ written, ?_⟩
    rw [model.executeAll_append_of_next _ executedFirst, executedRest]
termination_by structural initializers => initializers

/-- The statements that write one member leave at the path of its object what `storedMember`
says. -/
theorem executeAll_storeMember :
    ∀ (initializer : Initializer) {path : PropertyPath}
      {current : Environment (ObjectTree Atom)} {before after : ObjectTree Atom},
      AgreeOff path.root current environment →
        path.root ∉ initializer.value.freeNames →
          current.get? path = some before →
            model.storedMember environment setting path initializer before = some after →
              ∃ changed, current.set? path after = some changed ∧
                model.executeAll current (UpdatePlan.storeMember setting path initializer) =
                  some (.next changed)
  | ⟨name, declared, value⟩, path, current, before, after, agree, unread, located, result => by
    rw [storedMember] at result
    rw [UpdatePlan.storeMember]
    by_cases skipped : setting.skips ⟨path, ⟨name, declared, value⟩⟩ = true
    · rw [if_pos skipped, Option.some.injEq] at result
      subst result
      rw [if_pos skipped]
      exact ⟨current, Environment.set?_get? located, rfl⟩
    · rw [if_neg skipped] at result
      rw [if_neg skipped]
      obtain ⟨memberAfter, result, placedMember⟩ := Option.bind_eq_some_iff.1 result
      obtain ⟨memberBefore, found, memberResult⟩ := Option.bind_eq_some_iff.1 result
      have locatedMember : current.get? (path.child name) = some memberBefore :=
        (Environment.get?_child name located).trans found
      have agreeMember : AgreeOff (path.child name).root current environment := agree
      obtain ⟨reached, writtenMember, executedMember⟩ :=
        executeAll_storeValue value agreeMember unread locatedMember memberResult
      refine ⟨reached, ?_, executedMember⟩
      rw [← Environment.set?_child located placedMember]
      exact writtenMember
termination_by structural initializer => initializer

end

end ObjectModel

end MappingForms
