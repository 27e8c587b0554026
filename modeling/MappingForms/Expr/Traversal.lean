import MappingForms.Expr

/-!
Contract: the nodes of an expression, their direct children and the structural
measures of a tree.

Owns: the children of a node in source order, the reconstruction of a node over
changed children, the pre-order list of all nodes, the node count and the count
of guards, and the structural equality of trees.
-/

set_option autoImplicit false

namespace MappingForms

namespace Expr

/-- The direct children of a node, in source order. -/
def children : Expr → List Expr
  | literal .. => []
  | parameter .. => []
  | member receiver _ _ _ => [receiver]
  | call _ _ receiver arguments _ _ => receiver.toList ++ arguments
  | construct _ arguments initializers => arguments ++ initializers.map (·.value)
  | conditional condition whenTrue whenFalse _ => [condition, whenTrue, whenFalse]
  | coalesce left right _ => [left, right]
  | binary _ left right _ => [left, right]
  | raise exception _ => [exception]
  | projection source _ transform _ _ => [source, transform]
  | guarded receiver body _ => [receiver, body]

/-- The same node over changed children: flags, names and types stay. -/
def mapChildren (change : Expr → Expr) : Expr → Expr
  | literal value type => literal value type
  | parameter name type => parameter name type
  | member receiver name optional type => member (change receiver) name optional type
  | call target style receiver arguments optional type =>
    call target style (receiver.map change) (arguments.map change) optional type
  | construct type arguments initializers =>
    construct type (arguments.map change)
      (initializers.map fun init => ⟨init.member, init.memberType, change init.value⟩)
  | conditional condition whenTrue whenFalse type =>
    conditional (change condition) (change whenTrue) (change whenFalse) type
  | coalesce left right type => coalesce (change left) (change right) type
  | binary op left right type => binary op (change left) (change right) type
  | raise exception type => raise (change exception) type
  | projection source element transform materialize type =>
    projection (change source) element (change transform) materialize type
  | guarded receiver body type => guarded (change receiver) (change body) type

mutual

/-- Every node of the tree, each before its children and the children in source order. -/
def nodes (expr : Expr) : List Expr :=
  expr :: match expr with
    | literal .. => []
    | parameter .. => []
    | member receiver _ _ _ => receiver.nodes
    | call _ _ receiver arguments _ _ =>
      (match receiver with
        | none => []
        | some receiver => receiver.nodes) ++ nodesOfAll arguments
    | construct _ arguments initializers =>
      nodesOfAll arguments ++ nodesOfInitializers initializers
    | conditional condition whenTrue whenFalse _ =>
      condition.nodes ++ (whenTrue.nodes ++ whenFalse.nodes)
    | coalesce left right _ => left.nodes ++ right.nodes
    | binary _ left right _ => left.nodes ++ right.nodes
    | raise exception _ => exception.nodes
    | projection source _ transform _ _ => source.nodes ++ transform.nodes
    | guarded receiver body _ => receiver.nodes ++ body.nodes
termination_by structural expr

@[inherit_doc nodes]
def nodesOfAll : List Expr → List Expr
  | [] => []
  | first :: rest => first.nodes ++ nodesOfAll rest
termination_by structural exprs => exprs

@[inherit_doc nodes]
def nodesOfInitializers : List Initializer → List Expr
  | [] => []
  | ⟨_, _, value⟩ :: rest => value.nodes ++ nodesOfInitializers rest
termination_by structural initializers => initializers

end

def size (expr : Expr) : Nat := expr.nodes.length

def anyNode (test : Expr → Bool) (expr : Expr) : Bool := expr.nodes.any test

/-- Whether the tree still holds an optional link or a guard. -/
def containsOptionalLink (expr : Expr) : Bool := expr.anyNode isOptionalLink

def guardCount (expr : Expr) : Nat :=
  expr.nodes.countP fun node => match node with
    | guarded .. => true
    | _ => false

mutual

/-- Whether two trees are equal node by node, types included. Literals are
compared by value. -/
def same : Expr → Expr → Bool
  | literal value type, literal value' type' => value.same value' && type == type'
  | parameter name type, parameter name' type' => name == name' && type == type'
  | member receiver name optional type, member receiver' name' optional' type' =>
    receiver.same receiver' && name == name' && optional == optional' && type == type'
  | call target style receiver arguments optional type,
      call target' style' receiver' arguments' optional' type' =>
    target == target' && style == style' &&
      (match receiver, receiver' with
        | none, none => true
        | some receiver, some receiver' => receiver.same receiver'
        | _, _ => false) &&
      sameAll arguments arguments' && optional == optional' && type == type'
  | construct type arguments initializers, construct type' arguments' initializers' =>
    type == type' && sameAll arguments arguments' &&
      sameInitializers initializers initializers'
  | conditional condition whenTrue whenFalse type,
      conditional condition' whenTrue' whenFalse' type' =>
    condition.same condition' && whenTrue.same whenTrue' && whenFalse.same whenFalse' &&
      type == type'
  | coalesce left right type, coalesce left' right' type' =>
    left.same left' && right.same right' && type == type'
  | binary op left right type, binary op' left' right' type' =>
    op == op' && left.same left' && right.same right' && type == type'
  | raise exception type, raise exception' type' => exception.same exception' && type == type'
  | projection source element transform materialize type,
      projection source' element' transform' materialize' type' =>
    source.same source' && element == element' && transform.same transform' &&
      materialize == materialize' && type == type'
  | guarded receiver body type, guarded receiver' body' type' =>
    receiver.same receiver' && body.same body' && type == type'
  | _, _ => false
termination_by structural left => left

@[inherit_doc same]
def sameAll : List Expr → List Expr → Bool
  | [], [] => true
  | first :: rest, first' :: rest' => first.same first' && sameAll rest rest'
  | _, _ => false
termination_by structural left => left

@[inherit_doc same]
def sameInitializers : List Initializer → List Initializer → Bool
  | [], [] => true
  | ⟨name, declared, value⟩ :: rest, ⟨name', declared', value'⟩ :: rest' =>
    name == name' && declared == declared' && value.same value' && sameInitializers rest rest'
  | _, _ => false
termination_by structural left => left

end

end Expr

end MappingForms
