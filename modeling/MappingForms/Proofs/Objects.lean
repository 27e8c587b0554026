import MappingForms.Proofs.Evaluation

/-!
Contract: values as trees of objects.

Owns: object trees, reading and writing at a path of members, the interpretations
whose values are object trees, and the plainest one of them.

An object is a content together with its members. Two places of a tree never share
an object, so writing at one path leaves every other path alone.

Writing follows reading: a path can be written exactly where its parent can be
read and is an object.
-/

set_option autoImplicit false

namespace MappingForms

/-- A value without sharing. The content of an object is what it holds besides its
members, such as its class or its items. -/
inductive ObjectTree (Atom : Type) where
  | null
  | atom (value : Atom)
  | object (content : Atom) (members : String → ObjectTree Atom)

namespace ObjectTree

variable {Atom : Type}

def isNull : ObjectTree Atom → Bool
  | null => true
  | _ => false

@[simp]
theorem isNull_object (content : Atom) (members : String → ObjectTree Atom) :
    (object content members).isNull = false :=
  rfl

theorem isNull_iff (tree : ObjectTree Atom) : tree.isNull = true ↔ tree = null := by
  cases tree <;> simp [isNull]

def member? : ObjectTree Atom → String → Option (ObjectTree Atom)
  | object _ members, name => some (members name)
  | _, _ => none

def setMember? : ObjectTree Atom → String → ObjectTree Atom → Option (ObjectTree Atom)
  | object content members, name, value =>
    some (object content fun other => if other = name then value else members other)
  | _, _, _ => none

def setMembers? : ObjectTree Atom → List (String × ObjectTree Atom) → Option (ObjectTree Atom)
  | tree, [] => some tree
  | tree, (name, value) :: rest => (tree.setMember? name value).bind (·.setMembers? rest)

def get? : ObjectTree Atom → List String → Option (ObjectTree Atom)
  | tree, [] => some tree
  | tree, name :: rest => (tree.member? name).bind (·.get? rest)

def set? : ObjectTree Atom → List String → ObjectTree Atom → Option (ObjectTree Atom)
  | _, [], value => some value
  | tree, name :: rest, value =>
    ((tree.member? name).bind (·.set? rest value)).bind (tree.setMember? name)

/-! ## Members -/

@[simp]
theorem member?_object (content : Atom) (members : String → ObjectTree Atom) (name : String) :
    (object content members).member? name = some (members name) :=
  rfl

private theorem eq_object_of_member? {tree member : ObjectTree Atom} {name : String}
    (found : tree.member? name = some member) :
    ∃ content members, tree = object content members ∧ members name = member := by
  cases tree with
  | null => cases found
  | atom value => cases found
  | object content members => exact ⟨content, members, rfl, Option.some.inj found⟩

private theorem eq_object_of_setMembers? {tree changed : ObjectTree Atom}
    {entry : String × ObjectTree Atom} {entries : List (String × ObjectTree Atom)}
    (written : tree.setMembers? (entry :: entries) = some changed) :
    ∃ content members, tree = object content members := by
  cases tree with
  | null => cases written
  | atom value => cases written
  | object content members => exact ⟨content, members, rfl⟩

/-- Setting members of an object gives an object with the same content. A member that
is set once holds what it was set to, and a member that is not set is kept. -/
theorem setMembers?_object (content : Atom) :
    ∀ (entries : List (String × ObjectTree Atom)) (members : String → ObjectTree Atom),
      (entries.map (·.1)).Nodup →
        ∃ changed, (object content members).setMembers? entries = some (object content changed) ∧
          (∀ entry ∈ entries, changed entry.1 = entry.2) ∧
            ∀ name, name ∉ entries.map (·.1) → changed name = members name
  | [], members, _ => ⟨members, rfl, fun _ member => (nomatch member), fun _ _ => rfl⟩
  | (first, value) :: rest, members, distinct => by
    rw [List.map_cons, List.nodup_cons] at distinct
    obtain ⟨changed, written, holds, kept⟩ :=
      setMembers?_object content rest (fun other => if other = first then value else members other)
        distinct.2
    refine ⟨changed, written, ?_, ?_⟩
    · intro entry member
      rcases List.mem_cons.1 member with same | later
      · rw [same, kept first distinct.1, if_pos rfl]
      · exact holds entry later
    · intro name absent
      rw [List.map_cons, List.mem_cons, not_or] at absent
      rw [kept name absent.2, if_neg absent.1]

/-! ## Paths -/

private theorem get?_append (tree : ObjectTree Atom) (first second : List String) :
    tree.get? (first ++ second) = (tree.get? first).bind (·.get? second) := by
  induction first generalizing tree with
  | nil => rfl
  | cons name rest inductionHypothesis =>
    rw [List.cons_append, get?, get?]
    cases tree.member? name with
    | none => rfl
    | some below => exact inductionHypothesis below

/-- The value one member further is that member of the value. -/
theorem get?_child {tree place : ObjectTree Atom} {path : List String} (name : String)
    (located : tree.get? path = some place) :
    tree.get? (path ++ [name]) = place.member? name := by
  rw [get?_append, located, Option.bind_some, get?]
  cases place.member? name <;> rfl

/-- A place that can be read can be written. -/
theorem exists_set? {tree place : ObjectTree Atom} {path : List String}
    (located : tree.get? path = some place) (value : ObjectTree Atom) :
    ∃ changed, tree.set? path value = some changed := by
  induction path generalizing tree with
  | nil => exact ⟨value, rfl⟩
  | cons name rest inductionHypothesis =>
    obtain ⟨below, found, locatedBelow⟩ := Option.bind_eq_some_iff.1 located
    obtain ⟨changedBelow, writtenBelow⟩ := inductionHypothesis locatedBelow
    obtain ⟨content, members, rfl, rfl⟩ := eq_object_of_member? found
    refine ⟨object content fun other => if other = name then changedBelow else members other, ?_⟩
    rw [set?, member?_object, Option.bind_some, writtenBelow, Option.bind_some, setMember?]

/-- A place holds what was written there. -/
theorem get?_of_set? {tree changed value : ObjectTree Atom} {path : List String}
    (written : tree.set? path value = some changed) :
    changed.get? path = some value := by
  induction path generalizing tree changed with
  | nil => exact written.symm
  | cons name rest inductionHypothesis =>
    obtain ⟨changedBelow, writtenBelow, placed⟩ := Option.bind_eq_some_iff.1 written
    obtain ⟨below, found, writtenBelow⟩ := Option.bind_eq_some_iff.1 writtenBelow
    obtain ⟨content, members, rfl, rfl⟩ := eq_object_of_member? found
    rw [setMember?, Option.some.injEq] at placed
    subst placed
    rw [get?, member?_object, if_pos rfl, Option.bind_some]
    exact inductionHypothesis writtenBelow

/-- Writing what is there changes nothing. -/
theorem set?_get? {tree place : ObjectTree Atom} {path : List String}
    (located : tree.get? path = some place) :
    tree.set? path place = some tree := by
  induction path generalizing tree with
  | nil => exact located.symm
  | cons name rest inductionHypothesis =>
    obtain ⟨below, found, locatedBelow⟩ := Option.bind_eq_some_iff.1 located
    obtain ⟨content, members, rfl, rfl⟩ := eq_object_of_member? found
    rw [set?, member?_object, Option.bind_some, inductionHypothesis locatedBelow,
      Option.bind_some, setMember?]
    refine congrArg (some <| object content ·) (funext fun other => ?_)
    by_cases same : other = name
    · rw [if_pos same, same]
    · rw [if_neg same]

/-- Of two values written at one path the later stays. -/
theorem set?_set? {tree changed : ObjectTree Atom} {path : List String}
    {first : ObjectTree Atom} (written : tree.set? path first = some changed)
    (second : ObjectTree Atom) :
    changed.set? path second = tree.set? path second := by
  induction path generalizing tree changed with
  | nil => rfl
  | cons name rest inductionHypothesis =>
    obtain ⟨changedBelow, writtenBelow, placed⟩ := Option.bind_eq_some_iff.1 written
    obtain ⟨below, found, writtenBelow⟩ := Option.bind_eq_some_iff.1 writtenBelow
    obtain ⟨content, members, rfl, rfl⟩ := eq_object_of_member? found
    rw [setMember?, Option.some.injEq] at placed
    subst placed
    rw [set?, set?, member?_object, member?_object, if_pos rfl, Option.bind_some,
      Option.bind_some, inductionHypothesis writtenBelow]
    cases (members name).set? rest second with
    | none => rfl
    | some result =>
      refine congrArg (some <| object content ·) (funext fun other => ?_)
      by_cases same : other = name
      · rw [if_pos same, if_pos same]
      · rw [if_neg same, if_neg same]
        exact if_neg same

/-- Writing a member of a place is writing the place with that member changed. -/
theorem set?_child {tree place changed : ObjectTree Atom} {path : List String} {name : String}
    {value : ObjectTree Atom} (located : tree.get? path = some place)
    (placed : place.setMember? name value = some changed) :
    tree.set? (path ++ [name]) value = tree.set? path changed := by
  induction path generalizing tree with
  | nil =>
    obtain rfl : tree = place := Option.some.inj located
    cases tree with
    | null => cases placed
    | atom content => cases placed
    | object content members => exact placed
  | cons first rest inductionHypothesis =>
    obtain ⟨below, found, locatedBelow⟩ := Option.bind_eq_some_iff.1 located
    rw [List.cons_append, set?, set?, found, Option.bind_some, Option.bind_some,
      inductionHypothesis locatedBelow]

end ObjectTree

/-- An interpretation whose values are object trees. A construction creates an object and
then sets its members. -/
structure ObjectModel (Atom : Type) extends Interpretation (ObjectTree Atom) where
  null_eq : null = .null
  member_object : ∀ content members name, member (.object content members) name =
    some (members name)
  /-- Runs the constructor of a type. -/
  create : TypeRef → List (ObjectTree Atom) → Option (ObjectTree Atom)
  construct_eq : ∀ type arguments members,
    construct type arguments members = (create type arguments).bind (·.setMembers? members)

namespace ObjectModel

variable {Atom : Type} (model : ObjectModel Atom)

theorem isNull_eq (tree : ObjectTree Atom) : model.isNull tree = tree.isNull := by
  rw [Bool.eq_iff_iff, model.isNull_iff, model.null_eq, ObjectTree.isNull_iff]

/-- Evaluates an expression with short-circuiting links. -/
abbrev evaluate (environment : Environment (ObjectTree Atom)) (expr : Expr) :
    Option (ObjectTree Atom) :=
  model.toInterpretation.evaluate .shortCircuit environment expr

def holds (environment : Environment (ObjectTree Atom)) (condition : Expr) : Option Bool :=
  (model.evaluate environment condition).bind model.truth

/-- A conditional evaluates the branch that its condition chooses, and not the other. -/
theorem evaluate_conditional_eq (environment : Environment (ObjectTree Atom))
    (condition whenTrue whenFalse : Expr) (type : TypeRef) :
    model.evaluate environment (.conditional condition whenTrue whenFalse type) =
      (model.holds environment condition).bind fun holds =>
        if holds then model.evaluate environment whenTrue
        else model.evaluate environment whenFalse :=
  model.evaluate_conditional ..

theorem evaluate_construct_nil (environment : Environment (ObjectTree Atom)) (type : TypeRef)
    (arguments : List Expr) :
    model.evaluate environment (.construct type arguments []) =
      (model.evaluateAll .shortCircuit environment arguments).bind (model.create type) := by
  rw [evaluate, Interpretation.evaluate_construct]
  refine congrArg (Option.bind _) (funext fun values => ?_)
  rw [Interpretation.evaluateInitializers, Option.bind_some, model.construct_eq]
  cases model.create type values <;> rfl

/-- Initializers evaluate to one entry each, in their order. -/
theorem evaluateInitializers_eq_some {environment : Environment (ObjectTree Atom)}
    {initializers : List Initializer} {entries : List (String × ObjectTree Atom)}
    (evaluated : model.evaluateInitializers .shortCircuit environment initializers =
      some entries) :
    entries.map (·.1) = initializers.map (·.member) ∧
      ∀ initializer ∈ initializers, ∃ entry ∈ entries, entry.1 = initializer.member ∧
        model.evaluate environment initializer.value = some entry.2 := by
  induction initializers generalizing entries with
  | nil =>
    obtain rfl : [] = entries := Option.some.inj evaluated
    exact ⟨rfl, fun _ member => (nomatch member)⟩
  | cons first rest inductionHypothesis =>
    obtain ⟨name, type, value⟩ := first
    obtain ⟨result, evaluatedFirst, evaluatedRest⟩ := Option.bind_eq_some_iff.1 evaluated
    obtain ⟨restEntries, restEvaluated, rfl⟩ := Option.map_eq_some_iff.1 evaluatedRest
    obtain ⟨names, found⟩ := inductionHypothesis restEvaluated
    refine ⟨congrArg (name :: ·) names, fun initializer member => ?_⟩
    rcases List.mem_cons.1 member with same | later
    · rw [same]
      exact ⟨(name, result), List.mem_cons_self, rfl, evaluatedFirst⟩
    · obtain ⟨entry, listed, sameName, evaluatedValue⟩ := found initializer later
      exact ⟨entry, List.mem_cons_of_mem _ listed, sameName, evaluatedValue⟩

/-- A construction with distinct members that evaluates at all has created an object, and
its value is that object with the values of the initializers in their members. -/
theorem evaluate_construct_eq_some {environment : Environment (ObjectTree Atom)}
    {type : TypeRef} {arguments : List Expr} {first : Initializer} {rest : List Initializer}
    {wanted : ObjectTree Atom} (distinct : ((first :: rest).map (·.member)).Nodup)
    (evaluated : model.evaluate environment (.construct type arguments (first :: rest)) =
      some wanted) :
    ∃ values content start members,
      model.evaluateAll .shortCircuit environment arguments = some values ∧
      model.create type values = some (.object content start) ∧
      wanted = .object content members ∧
      ∀ initializer ∈ first :: rest,
        model.evaluate environment initializer.value = some (members initializer.member) := by
  rw [evaluate, Interpretation.evaluate_construct] at evaluated
  obtain ⟨values, evaluatedArguments, evaluated⟩ := Option.bind_eq_some_iff.1 evaluated
  obtain ⟨entries, evaluatedMembers, evaluated⟩ := Option.bind_eq_some_iff.1 evaluated
  rw [model.construct_eq] at evaluated
  obtain ⟨created, creates, written⟩ := Option.bind_eq_some_iff.1 evaluated
  obtain ⟨names, found⟩ := model.evaluateInitializers_eq_some evaluatedMembers
  obtain ⟨content, start, rfl⟩ : ∃ content start, created = .object content start := by
    cases entries with
    | nil => cases names
    | cons entry entries => exact ObjectTree.eq_object_of_setMembers? written
  obtain ⟨members, writtenMembers, holds, -⟩ :=
    ObjectTree.setMembers?_object content entries start (names ▸ distinct)
  rw [written, Option.some.injEq] at writtenMembers
  refine ⟨values, content, start, members, evaluatedArguments, creates, writtenMembers, ?_⟩
  intro initializer member
  obtain ⟨entry, listed, sameName, evaluatedValue⟩ := found initializer member
  rw [evaluatedValue, ← sameName, holds entry listed]

end ObjectModel

/-! ## The plainest model -/

namespace ObjectTree

/-- Equality of two values without looking into objects. -/
def sameAtom : ObjectTree Literal → ObjectTree Literal → Bool
  | null, null => true
  | atom left, atom right => left.same right
  | _, _ => false

private theorem sameAtom_null (tree : ObjectTree Literal) : tree.sameAtom null = tree.isNull := by
  cases tree <;> rfl

end ObjectTree

namespace ObjectModel

/-- Literals are the atoms, equality is the only operator, nothing can be called, and
every constructor gives the members of its type their defaults. -/
def plain (defaults : String → String → ObjectTree Literal) : ObjectModel Literal where
  null := .null
  isNull := ObjectTree.isNull
  isNull_iff := ObjectTree.isNull_iff
  ofBool value := .atom (.bool value)
  truth
    | .atom (.bool value) => some value
    | _ => none
  truth_ofBool _ := rfl
  literal
    | .null | .typedNull => .null
    | value => .atom value
  literal_null := rfl
  literal_typedNull := rfl
  member := ObjectTree.member?
  call _ _ _ _ := none
  construct type _ members :=
    (ObjectTree.object (.string type.name) (defaults type.name)).setMembers? members
  binary
    | .equal, some left, some right => some (.atom (.bool (left.sameAtom right)))
    | .notEqual, some left, some right => some (.atom (.bool !(left.sameAtom right)))
    | _, _, _ => none
  binary_failed op right := by cases op <;> rfl
  equal_null value := by
    show some (ObjectTree.atom (Literal.bool (value.sameAtom .null))) = _
    rw [ObjectTree.sameAtom_null]
  notEqual_null value := by
    show some (ObjectTree.atom (Literal.bool !(value.sameAtom .null))) = _
    rw [ObjectTree.sameAtom_null]
  project _ _ _ := none
  null_eq := rfl
  member_object _ _ _ := rfl
  create type _ := some (.object (.string type.name) (defaults type.name))
  construct_eq _ _ _ := rfl

end ObjectModel

end MappingForms
