import MappingForms.Expr.Traversal
import MappingForms.Marker

/-!
Contract: what becomes of optional links under each policy.

Owns: the removal of optional links, their expansion into explicit tests for null,
and the replacement of a subtree that the expansion of guards needs.

A chain is a run of member accesses, calls on a receiver, projections and guards,
each applied to the one below through its receiver. Expansion works through a chain
from its base outwards. Before an optional link it tests what has been built so far,
and everything above the link moves into the branch where the test succeeds:

    a?.B?.C   becomes   a != null ? (a.B != null ? a.B.C : (T?)null) : (T?)null

The null branches have the lifted type of the whole chain.
-/

set_option autoImplicit false

namespace MappingForms

namespace Expr

mutual

/-- Makes every optional link a plain one. A guard gives way to its body. -/
def ignoreLinks : Expr → Expr
  | literal value type => literal value type
  | parameter name type => parameter name type
  | member receiver name _ type => member receiver.ignoreLinks name false type
  | call target style receiver arguments _ type =>
    call target style
      (match receiver with
        | none => none
        | some receiver => some receiver.ignoreLinks)
      (ignoreLinksOfAll arguments) false type
  | construct type arguments initializers =>
    construct type (ignoreLinksOfAll arguments) (ignoreLinksOfInitializers initializers)
  | conditional condition whenTrue whenFalse type =>
    conditional condition.ignoreLinks whenTrue.ignoreLinks whenFalse.ignoreLinks type
  | coalesce left right type => coalesce left.ignoreLinks right.ignoreLinks type
  | binary op left right type => binary op left.ignoreLinks right.ignoreLinks type
  | raise exception type => raise exception.ignoreLinks type
  | projection source element transform materialize type =>
    projection source.ignoreLinks element transform.ignoreLinks materialize type
  | guarded _ body _ => body.ignoreLinks
termination_by structural expr => expr

@[inherit_doc ignoreLinks]
def ignoreLinksOfAll : List Expr → List Expr
  | [] => []
  | first :: rest => first.ignoreLinks :: ignoreLinksOfAll rest
termination_by structural exprs => exprs

@[inherit_doc ignoreLinks]
def ignoreLinksOfInitializers : List Initializer → List Initializer
  | [] => []
  | ⟨name, declared, value⟩ :: rest =>
    ⟨name, declared, value.ignoreLinks⟩ :: ignoreLinksOfInitializers rest
termination_by structural initializers => initializers

end

mutual

/-- Puts `new` in place of every subtree that equals `old`. What has been put in
place is not looked into. -/
def replace (old new : Expr) (expr : Expr) : Expr :=
  if expr.same old then new
  else match expr with
    | literal value type => literal value type
    | parameter name type => parameter name type
    | member receiver name optional type => member (replace old new receiver) name optional type
    | call target style receiver arguments optional type =>
      call target style
        (match receiver with
          | none => none
          | some receiver => some (replace old new receiver))
        (replaceInAll old new arguments) optional type
    | construct type arguments initializers =>
      construct type (replaceInAll old new arguments)
        (replaceInInitializers old new initializers)
    | conditional condition whenTrue whenFalse type =>
      conditional (replace old new condition) (replace old new whenTrue)
        (replace old new whenFalse) type
    | coalesce left right type => coalesce (replace old new left) (replace old new right) type
    | binary op left right type => binary op (replace old new left) (replace old new right) type
    | raise exception type => raise (replace old new exception) type
    | projection source element transform materialize type =>
      projection (replace old new source) element (replace old new transform) materialize type
    | guarded receiver body type => guarded (replace old new receiver) (replace old new body) type
termination_by structural expr

@[inherit_doc replace]
def replaceInAll (old new : Expr) : List Expr → List Expr
  | [] => []
  | first :: rest => replace old new first :: replaceInAll old new rest
termination_by structural exprs => exprs

@[inherit_doc replace]
def replaceInInitializers (old new : Expr) : List Initializer → List Initializer
  | [] => []
  | ⟨name, declared, value⟩ :: rest =>
    ⟨name, declared, replace old new value⟩ :: replaceInInitializers old new rest
termination_by structural initializers => initializers

end

/-- An access on `current`. An optional access is reached only if `current` is not
null, and yields a null of the given type otherwise. -/
def testedAccess (optional : Bool) (nullType : TypeRef) (current access : Expr) : Expr :=
  if optional then
    conditional current.notNullCheck access (literal .typedNull nullType) nullType
  else
    access

/-- How an expansion treats the optional links it meets. -/
structure LinkExpansion where
  context : NullableContext
  /-- What the body of a guard becomes, given the guard's receiver, the body, and
  what stands for the receiver once it has been tested. -/
  resolveGuard : (receiver body current : Expr) → Expr

mutual

/-- Expands the part of a chain that ends in this expression, and continues with
the rest of the chain on the result. Nulls have the type of the whole chain. -/
def expandChain (expansion : LinkExpansion) (nullType : TypeRef) (expr : Expr)
    (continuation : Expr → Expr) : Expr :=
  match expr with
  | literal value type => continuation (literal value type)
  | parameter name type => continuation (parameter name type)
  | member receiver name optional type =>
    receiver.expandChain expansion nullType fun current =>
      testedAccess optional nullType current (continuation (member current name false type))
  | call target style receiver arguments optional type =>
    let arguments := expandAll expansion arguments
    match receiver with
    | none => continuation (call target style none arguments optional type)
    | some receiver =>
      receiver.expandChain expansion nullType fun current =>
        testedAccess optional nullType current
          (continuation (call target style (some current) arguments false type))
  | construct type arguments initializers =>
    continuation
      (construct type (expandAll expansion arguments) (expandInitializers expansion initializers))
  | conditional condition whenTrue whenFalse type =>
    continuation
      (conditional
        (condition.expandChain expansion (condition.type.lifted expansion.context) id)
        (whenTrue.expandChain expansion (whenTrue.type.lifted expansion.context) id)
        (whenFalse.expandChain expansion (whenFalse.type.lifted expansion.context) id) type)
  | coalesce left right type =>
    continuation
      (coalesce (left.expandChain expansion (left.type.lifted expansion.context) id)
        (right.expandChain expansion (right.type.lifted expansion.context) id) type)
  | binary op left right type =>
    continuation
      (binary op (left.expandChain expansion (left.type.lifted expansion.context) id)
        (right.expandChain expansion (right.type.lifted expansion.context) id) type)
  | raise exception type =>
    continuation
      (raise (exception.expandChain expansion (exception.type.lifted expansion.context) id) type)
  | projection source element transform materialize type =>
    let transform := transform.expandChain expansion (transform.type.lifted expansion.context) id
    source.expandChain expansion nullType fun current =>
      continuation (projection current element transform materialize type)
  | guarded receiver body _ =>
    receiver.expandChain expansion nullType fun current =>
      testedAccess true nullType current
        (continuation (expansion.resolveGuard receiver body current))
termination_by structural expr

/-- Expands each expression as a chain of its own. -/
def expandAll (expansion : LinkExpansion) : List Expr → List Expr
  | [] => []
  | first :: rest =>
    first.expandChain expansion (first.type.lifted expansion.context) id ::
      expandAll expansion rest
termination_by structural exprs => exprs

@[inherit_doc expandAll]
def expandInitializers (expansion : LinkExpansion) : List Initializer → List Initializer
  | [] => []
  | ⟨name, declared, value⟩ :: rest =>
    ⟨name, declared, value.expandChain expansion (value.type.lifted expansion.context) id⟩ ::
      expandInitializers expansion rest
termination_by structural initializers => initializers

end

/-- Expands the optional links of an expression, which is the end of its own chain. -/
def expandWith (expansion : LinkExpansion) (expr : Expr) : Expr :=
  expr.expandChain expansion (expr.type.lifted expansion.context) id

/-- Expands optional links, with guards inside the bodies of guards resolved up to a
depth. The receiver of a guard is replaced in the body by what has been tested, and
the result is expanded in turn. -/
def expandToDepth (context : NullableContext) : Nat → Expr → Expr
  | 0 => expandWith
      { context, resolveGuard := fun receiver body current => replace receiver current body }
  | depth + 1 => expandWith
      { context
        resolveGuard := fun receiver body current =>
          expandToDepth context depth (replace receiver current body) }

/-- Expands every optional link into an explicit test for null. What replaces the
receiver of a guard holds no guard, so a body has fewer guards than the guard around
it, and the number of guards bounds the depth. -/
def expandLinks (context : NullableContext) (expr : Expr) : Expr :=
  expandToDepth context expr.guardCount expr

/-- Treats the optional links of an expression as a policy asks. -/
def resolveLinks (policy : LinkPolicy) (context : NullableContext) (expr : Expr) : Expr :=
  match policy with
  | .keep => expr
  | .ignore => expr.ignoreLinks
  | .expand => expr.expandLinks context

end Expr

end MappingForms
