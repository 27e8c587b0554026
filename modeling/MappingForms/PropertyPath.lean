import MappingForms.Expr
import MappingForms.Table

/-!
Contract: the destination members that a mapping writes, and what is known about
their types.

Owns: paths from a variable through members, the classification of a type as an
update needs it, and the table of the paths that the constructions of a body write.
-/

set_option autoImplicit false

namespace MappingForms

/-- A variable followed by members, such as `dest.Address.City`. -/
structure PropertyPath where
  root : String
  segments : List String := []
deriving DecidableEq

namespace PropertyPath

def child (path : PropertyPath) (member : String) : PropertyPath :=
  { path with segments := path.segments ++ [member] }

def isRoot (path : PropertyPath) : Bool := path.segments.isEmpty

/-- The number of members below the variable. -/
def depth (path : PropertyPath) : Nat := path.segments.length

def display (path : PropertyPath) : String :=
  ".".intercalate (path.root :: path.segments)

instance : Ord PropertyPath where
  compare := compareLex (compareOn PropertyPath.root) (compareOn segments)

theorem compare_eq (left right : PropertyPath) :
    compare left right =
      (compare left.root right.root).then (compare left.segments right.segments) :=
  rfl

instance : Std.TransOrd PropertyPath := inferInstanceAs (Std.TransCmp (compareLex _ _))

instance : Std.LawfulEqOrd PropertyPath where
  compare_self := by simp
  eq_of_compare := by
    intro left right same
    simp only [compare_eq, Ordering.then_eq_eq, Std.LawfulEqOrd.compare_eq_iff_eq] at same
    cases left
    cases right
    simp_all

end PropertyPath

/-- The kinds of types that an update tells apart. -/
inductive TypeCategory where
  /-- A reference type whose values may be null. -/
  | nullableReference
  /-- A value type whose values may be null. -/
  | nullableValue
  | value
  | string
  | collection
  /-- A reference type whose values are never null. -/
  | object
deriving DecidableEq

namespace TypeCategory

def ofType (type : TypeRef) (context : NullableContext) : TypeCategory :=
  match type.shape with
  | .string => string
  | .collection => collection
  | .value => if type.nullable then nullableValue else value
  | .reference => if type.canBeNull context then nullableReference else object

end TypeCategory

structure PathInfo where
  category : TypeCategory
  canBeNull : Bool
deriving DecidableEq

namespace PathInfo

def ofType (type : TypeRef) (context : NullableContext) : PathInfo where
  category := .ofType type context
  canBeNull := type.canBeNull context

def isString (info : PathInfo) : Bool := info.category == .string

def isCollection (info : PathInfo) : Bool := info.category == .collection

def isNullableValue (info : PathInfo) : Bool := info.category == .nullableValue

def isValue (info : PathInfo) : Bool := info.category == .value || info.isNullableValue

/-- Whether an object must be created in place before its members are written. Values
and strings are excluded: they are written whole. -/
def needsCreation (info : PathInfo) : Bool :=
  info.canBeNull && !info.isString && !info.isValue

end PathInfo

abbrev PathTypes := Table PropertyPath PathInfo

namespace PathTypes

mutual

/-- Adds the member paths that a value writes when it is stored at a path. Only
constructions and the branches of conditionals write members; a path that is met
again takes the later type. -/
def addValue (context : NullableContext) (path : PropertyPath) (types : PathTypes) :
    Expr → PathTypes
  | .construct _ _ initializers => addInitializers context path types initializers
  | .conditional _ whenTrue whenFalse _ =>
    addValue context path (addValue context path types whenTrue) whenFalse
  | _ => types
termination_by structural expr => expr

@[inherit_doc addValue]
def addInitializers (context : NullableContext) (path : PropertyPath) (types : PathTypes) :
    List Initializer → PathTypes
  | [] => types
  | ⟨name, declared, value⟩ :: rest =>
    let member := path.child name
    let known := types.insert member (.ofType declared context)
    addInitializers context path (addValue context member known value) rest
termination_by structural initializers => initializers

end

/-- The paths that a body writes when it is stored in a variable of the given type. -/
def ofBody (root : PropertyPath) (rootType : TypeRef) (body : Expr)
    (context : NullableContext) : PathTypes :=
  addValue context root ((∅ : PathTypes).insert root (.ofType rootType context)) body

end PathTypes

end MappingForms
