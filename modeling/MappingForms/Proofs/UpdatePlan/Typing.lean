import MappingForms.Proofs.Objects
import MappingForms.Proofs.Table
import MappingForms.UpdatePlan

/-!
Contract: what a typed front end promises about a destination and a body.

Owns: the values that a declared type admits, the conformance of a tree with the
declared types of its members, the bodies that fit a destination, and the fact that
the table of path types then says what the declarations say.

A destination path has one declared type, however often a body writes it. Objects
that exist and objects that a constructor has just created conform alike: null
stands only where the declared type can be null.
-/

set_option autoImplicit false

namespace MappingForms

/-- The declared types of a destination, by path from its variable. -/
abbrev Declarations := List String → Option TypeRef

variable {Atom : Type}

namespace TypeRef

/-- Whether a value has the shape that a declared type has at run time. A text or a number is an
atom, so one that stands where a class is declared is outside, even if the class is `object`. -/
def Admits (type : TypeRef) (context : NullableContext) : ObjectTree Atom → Prop
  | .null => type.canBeNull context = true
  | .atom _ => type.shape = .value ∨ type.shape = .string
  | .object _ _ => type.shape ≠ .string

theorem Admits.canBeNull {type : TypeRef} {context : NullableContext} {value : ObjectTree Atom}
    (admitted : type.Admits context value) (isNull : value.isNull = true) :
    type.canBeNull context = true := by
  rw [ObjectTree.isNull_iff] at isNull
  rw [isNull] at admitted
  exact admitted

end TypeRef

/-- Every value below a path is admitted by the type declared there. -/
def Conforms (context : NullableContext) (declared : Declarations) (path : List String)
    (tree : ObjectTree Atom) : Prop :=
  ∀ below value, tree.get? below = some value →
    ∀ type, declared (path ++ below) = some type → type.Admits context value

namespace Conforms

variable {context : NullableContext} {declared : Declarations} {path : List String}
  {tree : ObjectTree Atom}

/-- A conforming value is admitted by its declared type. -/
theorem admits {type : TypeRef} (conforms : Conforms context declared path tree)
    (typed : declared path = some type) : type.Admits context tree :=
  conforms [] tree rfl type (by rw [List.append_nil]; exact typed)

/-- The members of a conforming object conform. -/
theorem member {content : Atom} {members : String → ObjectTree Atom}
    (conforms : Conforms context declared path (.object content members)) (name : String) :
    Conforms context declared (path ++ [name]) (members name) := by
  intro below value located type typed
  refine conforms (name :: below) value located type ?_
  rw [List.append_assoc, List.singleton_append] at typed
  exact typed

end Conforms

namespace ObjectModel

variable (model : ObjectModel Atom) (context : NullableContext) (declared : Declarations)

mutual

/-- A value fits a path: what it constructs there conforms as soon as it is created,
members are set once and have the type that is declared for their path. -/
def Fits (path : List String) : Expr → Prop
  | .construct type _ initializers =>
    (∀ arguments created, model.create type arguments = some created →
      Conforms context declared path created) ∧
    (initializers.map (·.member)).Nodup ∧ FitMembers path initializers
  | .conditional _ whenTrue whenFalse _ => Fits path whenTrue ∧ Fits path whenFalse
  | _ => True
termination_by structural expr => expr

@[inherit_doc Fits]
def FitMembers (path : List String) : List Initializer → Prop
  | [] => True
  | ⟨name, type, value⟩ :: rest =>
    declared (path ++ [name]) = some type ∧ Fits (path ++ [name]) value ∧ FitMembers path rest
termination_by structural initializers => initializers

end

variable {model context declared}

/-- Initializers that fit have their declared types, and their values fit. -/
theorem FitMembers.of_mem {path : List String} {initializers : List Initializer}
    {initializer : Initializer} (fit : model.FitMembers context declared path initializers)
    (member : initializer ∈ initializers) :
    declared (path ++ [initializer.member]) = some initializer.memberType ∧
      model.Fits context declared (path ++ [initializer.member]) initializer.value := by
  induction initializers with
  | nil => cases member
  | cons first rest inductionHypothesis =>
    obtain ⟨name, type, value⟩ := first
    rcases List.mem_cons.1 member with same | later
    · rw [same]
      exact ⟨fit.1, fit.2.1⟩
    · exact inductionHypothesis fit.2.2 later

end ObjectModel

/-! ## The table of path types -/

namespace PathTypes

/-- What the table knows about a path is what its declared type says. -/
def Agree (types : PathTypes) (context : NullableContext) (declared : Declarations) : Prop :=
  ∀ path info, types.get? path = some info →
    ∃ type, declared path.segments = some type ∧ info = .ofType type context

/-- A path that is recorded with its declared type keeps the table in agreement. -/
theorem Agree.insert {types : PathTypes} {context : NullableContext} {declared : Declarations}
    {type : TypeRef} (agree : types.Agree context declared) (path : PropertyPath)
    (typed : declared path.segments = some type) :
    Agree (types.insert path (.ofType type context)) context declared := by
  intro sought info found
  rw [Table.get?_insert] at found
  by_cases same : sought = path
  · rw [if_pos same, Option.some.injEq] at found
    exact ⟨type, same ▸ typed, found.symm⟩
  · rw [if_neg same] at found
    exact agree sought info found

variable {model : ObjectModel Atom} {context : NullableContext} {declared : Declarations}

mutual

/-- The paths of a fitting value keep the table in agreement. -/
theorem Agree.addValue :
    ∀ (value : Expr) {path : PropertyPath} {types : PathTypes},
      model.Fits context declared path.segments value → types.Agree context declared →
        Agree (addValue context path types value) context declared
  | .construct _ _ initializers, _, _, fits, agree =>
    Agree.addInitializers initializers fits.2.2 agree
  | .conditional _ whenTrue whenFalse _, _, _, fits, agree =>
    Agree.addValue whenFalse fits.2 (Agree.addValue whenTrue fits.1 agree)
  | .literal .., _, _, _, agree => agree
  | .parameter .., _, _, _, agree => agree
  | .member .., _, _, _, agree => agree
  | .call .., _, _, _, agree => agree
  | .coalesce .., _, _, _, agree => agree
  | .binary .., _, _, _, agree => agree
  | .raise .., _, _, _, agree => agree
  | .projection .., _, _, _, agree => agree
  | .guarded .., _, _, _, agree => agree
termination_by structural value => value

theorem Agree.addInitializers :
    ∀ (initializers : List Initializer) {path : PropertyPath} {types : PathTypes},
      model.FitMembers context declared path.segments initializers →
        types.Agree context declared →
          Agree (addInitializers context path types initializers) context declared
  | [], _, _, _, agree => agree
  | ⟨name, type, value⟩ :: rest, path, _, fit, agree => by
    have known := agree.insert (path.child name) fit.1
    exact Agree.addInitializers rest fit.2.2 (Agree.addValue value fit.2.1 known)
termination_by structural initializers => initializers

end

/-- The table of a body that fits its destination agrees with the declarations. -/
theorem agree_ofBody {root : String} {rootType : TypeRef} {body : Expr}
    (typed : declared [] = some rootType) (fits : model.Fits context declared [] body) :
    Agree (ofBody ⟨root, []⟩ rootType body context) context declared := by
  refine Agree.addValue body fits (Agree.insert ?_ ⟨root, []⟩ typed)
  intro path info found
  cases found

/-- A write of a declared path is classified by the declared type. -/
theorem Agree.infoOf {setting : UpdatePlan.Setting} {write : UpdatePlan.MemberWrite}
    (agree : setting.types.Agree setting.context declared)
    (typed : declared write.path.segments = some write.declared) :
    setting.infoOf write = .ofType write.declared setting.context := by
  unfold UpdatePlan.Setting.infoOf
  cases found : setting.types.get? write.path with
  | none => rfl
  | some info =>
    obtain ⟨found, foundTyped, rfl⟩ := agree write.path info found
    rw [typed, Option.some.injEq] at foundTyped
    rw [foundTyped]
    rfl

end PathTypes

end MappingForms
