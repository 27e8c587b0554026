import MappingForms.Proofs.Objects
import MappingForms.UpdatePlan

/-!
Contract: what the statements of an update procedure do.

Owns: reading and writing a property path in an environment of object trees, the
execution of statements, and the run of a plan on a source and a destination.

A statement either lets the next one continue in a changed environment, or returns
a value. It fails where an expression fails, where a path leads through something
that is no object, and where it throws.
-/

set_option autoImplicit false

namespace MappingForms

namespace Environment

variable {Atom : Type}

def get? (environment : Environment (ObjectTree Atom)) (path : PropertyPath) :
    Option (ObjectTree Atom) :=
  (environment path.root).bind (·.get? path.segments)

def set? (environment : Environment (ObjectTree Atom)) (path : PropertyPath)
    (value : ObjectTree Atom) : Option (Environment (ObjectTree Atom)) :=
  ((environment path.root).bind (·.set? path.segments value)).map (environment.bind path.root)

variable {environment changed : Environment (ObjectTree Atom)} {path : PropertyPath}
  {place : ObjectTree Atom}

theorem get?_child (name : String) (located : environment.get? path = some place) :
    environment.get? (path.child name) = place.member? name := by
  obtain ⟨tree, bound, locatedInTree⟩ := Option.bind_eq_some_iff.1 located
  show (environment path.root).bind (·.get? (path.segments ++ [name])) = _
  rw [bound, Option.bind_some]
  exact ObjectTree.get?_child name locatedInTree

theorem exists_set? (located : environment.get? path = some place) (value : ObjectTree Atom) :
    ∃ changed, environment.set? path value = some changed := by
  obtain ⟨tree, bound, locatedInTree⟩ := Option.bind_eq_some_iff.1 located
  obtain ⟨changedTree, written⟩ := ObjectTree.exists_set? locatedInTree value
  refine ⟨environment.bind path.root changedTree, ?_⟩
  rw [set?, bound, Option.bind_some, written, Option.map_some]

/-- What was written is found. -/
theorem get?_of_set? {value : ObjectTree Atom}
    (written : environment.set? path value = some changed) :
    changed.get? path = some value := by
  obtain ⟨changedTree, writtenTree, rfl⟩ := Option.map_eq_some_iff.1 written
  obtain ⟨tree, bound, writtenTree⟩ := Option.bind_eq_some_iff.1 writtenTree
  rw [get?, bind_same, Option.bind_some]
  exact ObjectTree.get?_of_set? writtenTree

/-- Writing a path changes no other variable. -/
theorem apply_of_set? {value : ObjectTree Atom} {name : String}
    (written : environment.set? path value = some changed) (different : name ≠ path.root) :
    changed name = environment name := by
  obtain ⟨changedTree, writtenTree, rfl⟩ := Option.map_eq_some_iff.1 written
  exact environment.bind_other changedTree different

/-- Writing what is there changes nothing. -/
theorem set?_get? (located : environment.get? path = some place) :
    environment.set? path place = some environment := by
  obtain ⟨tree, bound, locatedInTree⟩ := Option.bind_eq_some_iff.1 located
  rw [set?, bound, Option.bind_some, ObjectTree.set?_get? locatedInTree, Option.map_some]
  refine congrArg some (funext fun name => ?_)
  by_cases same : name = path.root
  · rw [same, bind_same, bound]
  · rw [bind_other _ _ same]

/-- Of two writes to a path, the second counts. -/
theorem set?_set? {first : ObjectTree Atom}
    (written : environment.set? path first = some changed) (second : ObjectTree Atom) :
    changed.set? path second = environment.set? path second := by
  obtain ⟨changedTree, writtenTree, rfl⟩ := Option.map_eq_some_iff.1 written
  obtain ⟨tree, bound, writtenTree⟩ := Option.bind_eq_some_iff.1 writtenTree
  rw [set?, set?, bind_same, bound, Option.bind_some, Option.bind_some,
    ObjectTree.set?_set? writtenTree]
  refine congrArg (Option.map · _) (funext fun result => funext fun name => ?_)
  by_cases same : name = path.root
  · rw [same, bind_same, bind_same]
  · rw [bind_other _ _ same, bind_other _ _ same, bind_other _ _ same]

/-- Writing a member amounts to writing the object with that member changed. -/
theorem set?_child {name : String} {value changedPlace : ObjectTree Atom}
    (located : environment.get? path = some place)
    (placed : place.setMember? name value = some changedPlace) :
    environment.set? (path.child name) value = environment.set? path changedPlace := by
  obtain ⟨tree, bound, locatedInTree⟩ := Option.bind_eq_some_iff.1 located
  show ((environment path.root).bind (·.set? (path.segments ++ [name]) value)).map
    (environment.bind path.root) = _
  rw [set?, bound, Option.bind_some, Option.bind_some,
    ObjectTree.set?_child locatedInTree placed]

end Environment

inductive Flow (Atom : Type) where
  /-- The next statement continues in this environment. -/
  | next (environment : Environment (ObjectTree Atom))
  | returned (value : ObjectTree Atom)

namespace Flow

variable {Atom : Type}

/-- Continues unless a value was returned. -/
def andThen (flow : Flow Atom)
    (rest : Environment (ObjectTree Atom) → Option (Flow Atom)) : Option (Flow Atom) :=
  match flow with
  | next environment => rest environment
  | returned value => some (returned value)

end Flow

namespace ObjectModel

variable {Atom : Type} (model : ObjectModel Atom)

/-- Whether one of the conditions holds. Conditions after the first one that holds are
not evaluated. -/
def anyHolds (environment : Environment (ObjectTree Atom)) : List Expr → Option Bool
  | [] => some false
  | first :: rest =>
    (model.holds environment first).bind fun holds =>
      if holds then some true else anyHolds environment rest

mutual

def execute (environment : Environment (ObjectTree Atom)) : Statement → Option (Flow Atom)
  | .returnIf conditions result =>
    (model.anyHolds environment conditions).bind fun holds =>
      if holds then (environment.get? result).map .returned else some (.next environment)
  | .ensureCreated path creation =>
    (environment.get? path).bind fun current =>
      if current.isNull then
        (model.evaluate environment creation).bind fun created =>
          (environment.set? path created).map .next
      else
        some (.next environment)
  | .assign path value =>
    (model.evaluate environment value).bind fun result =>
      (environment.set? path result).map .next
  | .branch condition thenDo otherwise =>
    (model.holds environment condition).bind fun holds =>
      if holds then executeAll environment thenDo else executeAll environment otherwise
  | .raise _ => none
  | .comment _ => some (.next environment)
  | .finish path => (environment.get? path).map .returned
termination_by structural statement => statement

/-- Executes statements in order until one returns. -/
def executeAll (environment : Environment (ObjectTree Atom)) :
    List Statement → Option (Flow Atom)
  | [] => some (.next environment)
  | first :: rest =>
    (execute environment first).bind (·.andThen fun changed => executeAll changed rest)
termination_by structural statements => statements

end

private theorem executeAll_append (environment : Environment (ObjectTree Atom))
    (first second : List Statement) :
    model.executeAll environment (first ++ second) =
      (model.executeAll environment first).bind
        (·.andThen fun changed => model.executeAll changed second) := by
  induction first generalizing environment with
  | nil => rfl
  | cons statement rest inductionHypothesis =>
    rw [List.cons_append, executeAll, executeAll, Option.bind_assoc]
    refine congrArg (Option.bind _) (funext fun flow => ?_)
    cases flow with
    | next changed => exact inductionHypothesis changed
    | returned value => rfl

/-- Statements go on where those before them have ended. -/
theorem executeAll_append_of_next {environment changed : Environment (ObjectTree Atom)}
    {first : List Statement} (second : List Statement)
    (executed : model.executeAll environment first = some (.next changed)) :
    model.executeAll environment (first ++ second) = model.executeAll changed second := by
  rw [executeAll_append, executed]
  rfl

/-- Nothing is executed after a return. -/
theorem executeAll_append_of_returned {environment : Environment (ObjectTree Atom)}
    {value : ObjectTree Atom} {first : List Statement} (second : List Statement)
    (executed : model.executeAll environment first = some (.returned value)) :
    model.executeAll environment (first ++ second) = some (.returned value) := by
  rw [executeAll_append, executed]
  rfl

theorem executeAll_singleton (environment : Environment (ObjectTree Atom))
    (statement : Statement) :
    model.executeAll environment [statement] = model.execute environment statement := by
  rw [executeAll]
  cases model.execute environment statement with
  | none => rfl
  | some flow => cases flow <;> rfl

/-- Runs a plan on a source and a destination, to the value that it returns. -/
def run (plan : UpdatePlan) (source dest : ObjectTree Atom) : Option (ObjectTree Atom) :=
  let environment := (Environment.single plan.source.name source).bind plan.dest.name dest
  match model.executeAll environment plan.statements with
  | some (.returned value) => some value
  | _ => none

end ObjectModel

end MappingForms
