import MappingForms.Discovery
import MappingForms.Statement

/-!
Contract: the statements that write a mapping body into an existing destination.

Owns: the plan of an update procedure.

A plan starts with an early return for a source that may be null, or for a
destination that may be null and cannot be created. It then creates a destination
that is null, writes the members in source order, and returns the destination.
Objects below the destination are reused where they exist.
-/

set_option autoImplicit false

namespace MappingForms

/-- The planned update procedure of one specification. -/
structure UpdatePlan where
  source : Parameter
  dest : Parameter
  statements : List Statement

namespace UpdatePlan

/-- One member assignment of an object at a path. -/
structure MemberWrite where
  parent : PropertyPath
  initializer : Initializer

namespace MemberWrite

def path (write : MemberWrite) : PropertyPath := write.parent.child write.initializer.member

def declared (write : MemberWrite) : TypeRef := write.initializer.memberType

def value (write : MemberWrite) : Expr := write.initializer.value

end MemberWrite

structure Setting where
  types : PathTypes
  collections : CollectionPolicy
  context : NullableContext

namespace Setting

/-- What is known about the path of a write, or else about the type declared for it. -/
def infoOf (setting : Setting) (write : MemberWrite) : PathInfo :=
  (setting.types.get? write.path).getD (.ofType write.declared setting.context)

/-- Whether a write is left out because its path holds or receives a collection. -/
def skips (setting : Setting) (write : MemberWrite) : Bool :=
  ((setting.infoOf write).isCollection || write.value.type.shape == .collection) &&
    setting.collections == .skip

end Setting

/-- A construction whose members can be written one by one. -/
def isExpandable (type : TypeRef) (initializers : List Initializer) : Bool :=
  !type.isValue && !initializers.isEmpty

/-- Whether every branch is a construction, a null or a throw. -/
def branchesQualify : Expr → Bool
  | .construct .. => true
  | .conditional _ whenTrue whenFalse _ => branchesQualify whenTrue && branchesQualify whenFalse
  | expr => expr.isNull || expr.isRaise

/-- Whether some branch is a construction whose members can be written one by one. -/
def hasExpandable : Expr → Bool
  | .construct type _ initializers => isExpandable type initializers
  | .conditional _ whenTrue whenFalse _ => hasExpandable whenTrue || hasExpandable whenFalse
  | _ => false

/-- Whether a conditional becomes a statement with branches. -/
def expandsConditional (value : Expr) (info : PathInfo) : Bool :=
  !info.isValue && branchesQualify value && hasExpandable value

/-- The note that stands for a collection which is not written. -/
def skipNote (path : PropertyPath) : String :=
  path.display ++ " is left unchanged (collections are skipped)"

mutual

/-- The statements that store a value at a path. Constructions are written member by
member, and conditionals with such constructions in their branches become branching
statements. -/
def storeValue (setting : Setting) (path : PropertyPath) (info : PathInfo) (value : Expr) :
    List Statement :=
  match value with
  | .construct type arguments initializers =>
    if isExpandable type initializers && !info.isValue then
      (if info.needsCreation then
        [.ensureCreated path (.construct type arguments [])]
      else
        []) ++ storeMembers setting path initializers
    else
      [.assign path (.construct type arguments initializers)]
  | .conditional condition whenTrue whenFalse type =>
    if expandsConditional (.conditional condition whenTrue whenFalse type) info then
      [.branch condition (storeValue setting path info whenTrue)
        (storeValue setting path info whenFalse)]
    else
      [.assign path (.conditional condition whenTrue whenFalse type)]
  | .raise exception _ => [.raise exception]
  | value => [.assign path value]
termination_by structural value

/-- The statements that write the members of an object at a path. -/
def storeMembers (setting : Setting) (parent : PropertyPath) :
    List Initializer → List Statement
  | [] => []
  | first :: rest => storeMember setting parent first ++ storeMembers setting parent rest
termination_by structural initializers => initializers

/-- The statements that write one member of an object at a path. A member that is skipped
leaves a note and nothing else. -/
def storeMember (setting : Setting) (parent : PropertyPath) : Initializer → List Statement
  | ⟨name, declared, value⟩ =>
    let write : MemberWrite := ⟨parent, ⟨name, declared, value⟩⟩
    if setting.skips write then
      [.comment (skipNote write.path)]
    else
      storeValue setting write.path (setting.infoOf write) value
termination_by structural initializer => initializer

end

/-- The name of the destination parameter, which differs from the source's. -/
def destName (sourceName : String) : String :=
  if sourceName = "dest" then "target" else "dest"

def guardConditions (spec : Specification) (dest : Parameter) (context : NullableContext) :
    List Expr :=
  let source := spec.parameter
  (if source.type.canBeNull context then
    [(Expr.parameter source.name source.type).isNullCheck]
  else
    []) ++
  (if dest.type.canBeNull context && !dest.type.constructible then
    [(Expr.parameter dest.name dest.type).isNullCheck]
  else
    [])

/-- Plans the update of a destination from a transformed body. -/
def ofBody (spec : Specification) (body : Expr) (context : NullableContext) :
    Except FormError UpdatePlan :=
  if spec.returnType.isValue then
    .error (.valueType spec.id (spec.returnType.display context))
  else match body with
    | .construct _ _ [] => .error (.noInitializers spec.id)
    | .construct type arguments initializers =>
      let dest : Parameter := ⟨destName spec.parameter.name, spec.returnType⟩
      let root : PropertyPath := ⟨dest.name, []⟩
      let setting : Setting :=
        { types := .ofBody root dest.type body context
          collections := spec.options.collections
          context }
      let conditions := guardConditions spec dest context
      let early := if conditions.isEmpty then [] else [Statement.returnIf conditions root]
      let creation :=
        if dest.type.canBeNull context && dest.type.constructible then
          [Statement.ensureCreated root (.construct type arguments [])]
        else
          []
      .ok
        { source := spec.parameter
          dest
          statements := early ++ creation ++ storeMembers setting root initializers ++
            [.finish root] }
    | _ => .error (.notConstruction spec.id (spec.returnType.display context))

end UpdatePlan

end MappingForms
