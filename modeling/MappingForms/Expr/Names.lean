import MappingForms.Expr.Traversal

/-!
Contract: the parameter names in an expression.

Owns: the free names of a tree, all names in a tree, renaming of a free name,
and the choice of a name that is not in use.

A projection binds its element in its transform and nowhere else. No other node
binds a name.
-/

set_option autoImplicit false

namespace MappingForms

namespace Expr

mutual

/-- The parameter names that occur in the tree outside the transforms of
projections that bind them. -/
def freeNames : Expr → List String
  | literal .. => []
  | parameter name _ => [name]
  | member receiver _ _ _ => receiver.freeNames
  | call _ _ receiver arguments _ _ =>
    (match receiver with
      | none => []
      | some receiver => receiver.freeNames) ++ freeNamesOfAll arguments
  | construct _ arguments initializers =>
    freeNamesOfAll arguments ++ freeNamesOfInitializers initializers
  | conditional condition whenTrue whenFalse _ =>
    condition.freeNames ++ (whenTrue.freeNames ++ whenFalse.freeNames)
  | coalesce left right _ => left.freeNames ++ right.freeNames
  | binary _ left right _ => left.freeNames ++ right.freeNames
  | raise exception _ => exception.freeNames
  | projection source element transform _ _ =>
    source.freeNames ++ transform.freeNames.filter (· ≠ element)
  | guarded receiver body _ => receiver.freeNames ++ body.freeNames
termination_by structural expr => expr

@[inherit_doc freeNames]
def freeNamesOfAll : List Expr → List String
  | [] => []
  | first :: rest => first.freeNames ++ freeNamesOfAll rest
termination_by structural exprs => exprs

@[inherit_doc freeNames]
def freeNamesOfInitializers : List Initializer → List String
  | [] => []
  | ⟨_, _, value⟩ :: rest => value.freeNames ++ freeNamesOfInitializers rest
termination_by structural initializers => initializers

end

/-- Every parameter name and every projection element in the tree. -/
def names (expr : Expr) : List String :=
  expr.nodes.filterMap fun node => match node with
    | parameter name _ => some name
    | projection _ element _ _ _ => some element
    | _ => none

mutual

/-- Renames the free occurrences of one name. -/
def rename (old new : String) : Expr → Expr
  | literal value type => literal value type
  | parameter name type => parameter (if name = old then new else name) type
  | member receiver name optional type => member (receiver.rename old new) name optional type
  | call target style receiver arguments optional type =>
    call target style
      (match receiver with
        | none => none
        | some receiver => some (receiver.rename old new))
      (renameAll old new arguments) optional type
  | construct type arguments initializers =>
    construct type (renameAll old new arguments) (renameInitializers old new initializers)
  | conditional condition whenTrue whenFalse type =>
    conditional (condition.rename old new) (whenTrue.rename old new)
      (whenFalse.rename old new) type
  | coalesce left right type => coalesce (left.rename old new) (right.rename old new) type
  | binary op left right type => binary op (left.rename old new) (right.rename old new) type
  | raise exception type => raise (exception.rename old new) type
  | projection source element transform materialize type =>
    projection (source.rename old new) element
      (if element = old then transform else transform.rename old new) materialize type
  | guarded receiver body type => guarded (receiver.rename old new) (body.rename old new) type
termination_by structural expr => expr

@[inherit_doc rename]
def renameAll (old new : String) : List Expr → List Expr
  | [] => []
  | first :: rest => first.rename old new :: renameAll old new rest
termination_by structural exprs => exprs

@[inherit_doc rename]
def renameInitializers (old new : String) : List Initializer → List Initializer
  | [] => []
  | ⟨name, declared, value⟩ :: rest =>
    ⟨name, declared, value.rename old new⟩ :: renameInitializers old new rest
termination_by structural initializers => initializers

end

mutual

/-- Renaming changes no shape: the tree keeps its number of nodes. -/
theorem length_nodes_rename (old new : String) :
    ∀ expr : Expr, (expr.rename old new).nodes.length = expr.nodes.length
  | literal .. => rfl
  | parameter .. => rfl
  | member receiver _ _ _ => by
    simp [rename, nodes, length_nodes_rename old new receiver]
  | call _ _ none arguments _ _ => by
    simp [rename, nodes, length_nodesOfAll_rename old new arguments]
  | call _ _ (some receiver) arguments _ _ => by
    simp [rename, nodes, length_nodes_rename old new receiver,
      length_nodesOfAll_rename old new arguments]
  | construct _ arguments initializers => by
    simp [rename, nodes, length_nodesOfAll_rename old new arguments,
      length_nodesOfInitializers_rename old new initializers]
  | conditional condition whenTrue whenFalse _ => by
    simp [rename, nodes, length_nodes_rename old new condition,
      length_nodes_rename old new whenTrue, length_nodes_rename old new whenFalse]
  | coalesce left right _ => by
    simp [rename, nodes, length_nodes_rename old new left, length_nodes_rename old new right]
  | binary _ left right _ => by
    simp [rename, nodes, length_nodes_rename old new left, length_nodes_rename old new right]
  | raise exception _ => by
    simp [rename, nodes, length_nodes_rename old new exception]
  | projection source element transform _ _ => by
    by_cases bound : element = old <;>
      simp [rename, nodes, bound, length_nodes_rename old new source,
        length_nodes_rename old new transform]
  | guarded receiver body _ => by
    simp [rename, nodes, length_nodes_rename old new receiver,
      length_nodes_rename old new body]
termination_by structural expr => expr

private theorem length_nodesOfAll_rename (old new : String) :
    ∀ exprs : List Expr,
      (nodesOfAll (renameAll old new exprs)).length = (nodesOfAll exprs).length
  | [] => rfl
  | first :: rest => by
    simp [renameAll, nodesOfAll, length_nodes_rename old new first,
      length_nodesOfAll_rename old new rest]
termination_by structural exprs => exprs

private theorem length_nodesOfInitializers_rename (old new : String) :
    ∀ initializers : List Initializer,
      (nodesOfInitializers (renameInitializers old new initializers)).length =
        (nodesOfInitializers initializers).length
  | [] => rfl
  | ⟨_, _, value⟩ :: rest => by
    simp [renameInitializers, nodesOfInitializers, length_nodes_rename old new value,
      length_nodesOfInitializers_rename old new rest]
termination_by structural initializers => initializers

end

/-- Renaming keeps the number of nodes. -/
@[simp]
theorem size_rename (old new : String) (expr : Expr) :
    (expr.rename old new).size = expr.size :=
  length_nodes_rename old new expr

theorem size_pos (expr : Expr) : 0 < expr.size := by
  unfold size nodes
  simp

end Expr

/-- The candidates for a name like `base`: the base with a positive number appended. -/
def numberedName (base : String) (number : Nat) : String := base ++ toString number

/-- The first numbered name that is not to be avoided. One more candidate than
there are names to avoid always suffices, so that the number has 32 bits unless there
are nearly as many names to avoid as such numbers. -/
def freshName (base : String) (avoid : List String) : String :=
  let candidates := (List.range (avoid.length + 1)).map fun index => numberedName base (index + 1)
  (candidates.find? fun candidate => !avoid.contains candidate).getD base

end MappingForms
