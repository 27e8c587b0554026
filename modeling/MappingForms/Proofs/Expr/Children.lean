import MappingForms.Expr.Traversal

/-!
Contract: expressions by their direct children.

Owns: the list of nodes in terms of children, induction over children, and the change of
children, also by functions that agree on them and by a list of new children.

A function that treats most kinds of nodes alike is proved right with one step for all
kinds of nodes, instead of a case for each kind and a copy for lists and initializers.
-/

set_option autoImplicit false

namespace MappingForms

namespace Expr

private theorem nodesOfAll_eq_flatMap (exprs : List Expr) :
    nodesOfAll exprs = exprs.flatMap nodes := by
  induction exprs with
  | nil => rfl
  | cons first rest inductionHypothesis =>
    rw [nodesOfAll, inductionHypothesis, List.flatMap_cons]

private theorem nodesOfInitializers_eq_flatMap (initializers : List Initializer) :
    nodesOfInitializers initializers = (initializers.map (·.value)).flatMap nodes := by
  induction initializers with
  | nil => rfl
  | cons first rest inductionHypothesis =>
    obtain ⟨name, type, value⟩ := first
    rw [nodesOfInitializers, inductionHypothesis, List.map_cons, List.flatMap_cons]
    rfl

/-- The nodes of a tree are the tree itself and the nodes of its children. -/
theorem nodes_eq (expr : Expr) : expr.nodes = expr :: expr.children.flatMap nodes := by
  cases expr with
  | call target style receiver arguments optional type =>
    cases receiver <;> simp [nodes, children, nodesOfAll_eq_flatMap]
  | _ =>
    simp [nodes, children, nodesOfAll_eq_flatMap, nodesOfInitializers_eq_flatMap]

theorem mem_nodes_self (expr : Expr) : expr ∈ expr.nodes := by
  rw [nodes_eq]
  exact List.mem_cons_self

/-- The nodes of a child are nodes of the tree. -/
theorem mem_nodes_of_mem_children {expr child node : Expr} (listed : child ∈ expr.children)
    (member : node ∈ child.nodes) : node ∈ expr.nodes := by
  rw [nodes_eq]
  exact List.mem_cons_of_mem _ (List.mem_flatMap.2 ⟨child, listed, member⟩)

private theorem nodes_sublist_of_mem_children {expr child : Expr} (listed : child ∈ expr.children) :
    child.nodes.Sublist (expr.children.flatMap nodes) := by
  rw [List.flatMap_def]
  exact List.sublist_flatten_of_mem (List.mem_map_of_mem listed)

theorem size_lt_of_mem_children {expr child : Expr} (listed : child ∈ expr.children) :
    child.size < expr.size := by
  unfold size
  rw [expr.nodes_eq, List.length_cons]
  exact Nat.lt_succ_of_le (nodes_sublist_of_mem_children listed).length_le

/-- What holds of a tree whenever it holds of its children holds of every tree. -/
theorem induction_on_children {motive : Expr → Prop}
    (step : ∀ expr, (∀ child ∈ expr.children, motive child) → motive expr) (expr : Expr) :
    motive expr :=
  step expr fun child listed =>
    have : child.size < expr.size := size_lt_of_mem_children listed
    induction_on_children step child
termination_by expr.size

/-- The nodes of a subtree stand among those of the tree in the same order. -/
theorem nodes_sublist_of_mem_nodes {expr node : Expr} (member : node ∈ expr.nodes) :
    node.nodes.Sublist expr.nodes := by
  induction expr using induction_on_children with
  | step expr inductionHypothesis =>
    rw [nodes_eq] at member
    rcases List.mem_cons.1 member with same | below
    · exact same ▸ List.Sublist.refl _
    · obtain ⟨child, listed, inChild⟩ := List.mem_flatMap.1 below
      have inChildren := (inductionHypothesis child listed inChild).trans
        (nodes_sublist_of_mem_children listed)
      rw [nodes_eq expr]
      exact inChildren.cons expr

/-- A change of children changes each of them in its place. -/
theorem children_mapChildren (change : Expr → Expr) (expr : Expr) :
    (expr.mapChildren change).children = expr.children.map change := by
  cases expr with
  | call target style receiver arguments optional type =>
    cases receiver <;> simp [mapChildren, children]
  | construct type arguments initializers =>
    simp [mapChildren, children, Function.comp_def, Initializer.value]
  | _ => rfl

theorem mapChildren_id (expr : Expr) : expr.mapChildren id = expr := by
  cases expr with
  | construct type arguments initializers =>
    have rebuilt : ∀ init : Initializer, ⟨init.member, init.memberType, init.value⟩ = init := by
      rintro ⟨name, declared, value⟩
      rfl
    simp [mapChildren, rebuilt]
  | _ => simp [mapChildren]

/-- Functions that agree on the children of a node change it alike. -/
theorem mapChildren_congr {expr : Expr} {change other : Expr → Expr}
    (agree : ∀ child ∈ expr.children, change child = other child) :
    expr.mapChildren change = expr.mapChildren other := by
  cases expr with
  | call target style receiver arguments optional type =>
    have argumentsEq : arguments.map change = arguments.map other :=
      List.map_congr_left fun argument listed => agree argument (List.mem_append_right _ listed)
    cases receiver with
    | none => rw [mapChildren, mapChildren, argumentsEq, Option.map_none, Option.map_none]
    | some receiver =>
      have receiverEq : change receiver = other receiver :=
        agree receiver (List.mem_append_left _ List.mem_cons_self)
      rw [mapChildren, mapChildren, argumentsEq, Option.map_some, Option.map_some, receiverEq]
  | construct type arguments initializers =>
    have argumentsEq : arguments.map change = arguments.map other :=
      List.map_congr_left fun argument listed => agree argument (List.mem_append_left _ listed)
    have valueEq : ∀ initializer ∈ initializers,
        change initializer.value = other initializer.value := fun initializer listed =>
      agree _ (List.mem_append_right _ (List.mem_map_of_mem listed))
    rw [mapChildren, mapChildren, argumentsEq]
    refine congrArg (Expr.construct type _ ·) (List.map_congr_left fun initializer listed => ?_)
    rw [valueEq initializer listed]
  | _ => simp_all [mapChildren, children]

/-- The same node over other children, listed in source order. The list is as long as that of the
children. -/
def withChildren : Expr → List Expr → Expr
  | member _ name optional type, [receiver] => member receiver name optional type
  | call target style none _ optional type, arguments =>
    call target style none arguments optional type
  | call target style (some _) _ optional type, receiver :: arguments =>
    call target style (some receiver) arguments optional type
  | construct type arguments initializers, children =>
    construct type (children.take arguments.length)
      (initializers.zipWith (fun init value => ⟨init.member, init.memberType, value⟩)
        (children.drop arguments.length))
  | conditional _ _ _ type, [condition, whenTrue, whenFalse] =>
    conditional condition whenTrue whenFalse type
  | coalesce _ _ type, [left, right] => coalesce left right type
  | binary op _ _ type, [left, right] => binary op left right type
  | raise _ type, [exception] => raise exception type
  | projection _ element _ materialize type, [source, transform] =>
    projection source element transform materialize type
  | guarded _ _ type, [receiver, body] => guarded receiver body type
  | expr, _ => expr

theorem withChildren_map (expr : Expr) (change : Expr → Expr) :
    expr.withChildren (expr.children.map change) = expr.mapChildren change := by
  cases expr with
  | call target style receiver arguments optional type => cases receiver <;> rfl
  | construct type arguments initializers =>
    simp [withChildren, children, mapChildren, List.zipWith_map_right, List.zipWith_self]
  | _ => rfl

end Expr

/-- The type of a list of texts, for expressions that are written out. -/
def TypeRef.strings : TypeRef := .collection "List<string>"

end MappingForms
