import MappingForms.Proofs.Expr.Children
import Mathlib.Data.List.Basic

/-!
Contract: the traversals of an expression see the same nodes.

Owns: what a node is apart from its children, the places of a tree, the node at a place, and the
laws that changing children changes nothing else and that the nodes of a tree are listed place by
place.

Equal subtrees may stand at several places, so a node is told apart from another one by its place.
A place lists which child is taken at every step down from the root. In the lexicographic order of
places a node comes before everything below it, and everything below a child comes before
everything below a later child.
-/

set_option autoImplicit false

namespace MappingForms

namespace Expr

/-! ## Nodes apart from their children -/

/-- Everything about a node but its children. -/
inductive NodeData where
  | literal (value : Literal) (type : TypeRef)
  | parameter (name : String) (type : TypeRef)
  | member (name : String) (optional : Bool) (type : TypeRef)
  | call (target : CallableId) (style : CallStyle) (hasReceiver : Bool) (optional : Bool)
      (type : TypeRef)
  | construct (type : TypeRef) (argumentCount : Nat) (members : List (String × TypeRef))
  | conditional (type : TypeRef)
  | coalesce (type : TypeRef)
  | binary (op : BinaryOp) (type : TypeRef)
  | raise (type : TypeRef)
  | projection (element : String) (materialize : Option String) (type : TypeRef)
  | guarded (type : TypeRef)

def nodeData : Expr → NodeData
  | literal value type => .literal value type
  | parameter name type => .parameter name type
  | member _ name optional type => .member name optional type
  | call target style receiver _ optional type =>
    .call target style receiver.isSome optional type
  | construct type arguments initializers =>
    .construct type arguments.length (initializers.map fun init => (init.member, init.memberType))
  | conditional _ _ _ type => .conditional type
  | coalesce _ _ type => .coalesce type
  | binary op _ _ type => .binary op type
  | raise _ type => .raise type
  | projection _ element _ materialize type => .projection element materialize type
  | guarded _ _ type => .guarded type

theorem nodeData_mapChildren (change : Expr → Expr) (expr : Expr) :
    (expr.mapChildren change).nodeData = expr.nodeData := by
  cases expr with
  | call => simp [mapChildren, nodeData]
  | construct =>
    simp [mapChildren, nodeData, Function.comp_def, Initializer.member, Initializer.memberType]
  | _ => rfl

/-- The members of initializers and their values are all there is to them. -/
theorem initializers_eq {left right : List Initializer}
    (sameMembers : left.map (fun init => (init.member, init.memberType)) =
      right.map fun init => (init.member, init.memberType))
    (sameValues : left.map (·.value) = right.map (·.value)) : left = right := by
  induction left generalizing right with
  | nil =>
    cases right with
    | nil => rfl
    | cons => cases sameMembers
  | cons first rest inductionHypothesis =>
    cases right with
    | nil => cases sameMembers
    | cons other others =>
      obtain ⟨name, declared, value⟩ := first
      obtain ⟨otherName, otherDeclared, otherValue⟩ := other
      simp only [List.map_cons, List.cons.injEq, Prod.mk.injEq, Initializer.member,
        Initializer.memberType, Initializer.value] at sameMembers sameValues
      obtain ⟨⟨rfl, rfl⟩, restMembers⟩ := sameMembers
      obtain ⟨rfl, restValues⟩ := sameValues
      rw [inductionHypothesis restMembers restValues]

/-- The children of a node are all there is to it apart from its data. -/
theorem eq_of_nodeData_of_children {left right : Expr} (sameData : left.nodeData = right.nodeData)
    (sameChildren : left.children = right.children) : left = right := by
  cases left with
  | call target style receiver arguments optional type =>
    cases right with
    | call otherTarget otherStyle otherReceiver otherArguments otherOptional otherType =>
      simp only [nodeData, NodeData.call.injEq] at sameData
      obtain ⟨rfl, rfl, sameReceiver, rfl, rfl⟩ := sameData
      cases receiver <;> cases otherReceiver <;> simp_all [children]
    | _ => cases sameData
  | construct type arguments initializers =>
    cases right with
    | construct otherType otherArguments otherInitializers =>
      simp only [nodeData, NodeData.construct.injEq] at sameData
      obtain ⟨rfl, sameCount, sameMembers⟩ := sameData
      obtain ⟨rfl, sameValues⟩ := List.append_inj sameChildren sameCount
      rw [initializers_eq sameMembers sameValues]
    | _ => cases sameData
  | _ => cases right <;> simp_all [nodeData, children]

end Expr

/-! ## Places -/

/-- The way from the root of a tree to a node: the number of the child at every step. -/
abbrev Place := List Nat

/-- The order of places from the root on and from the first child to the last. -/
abbrev Place.Precedes : Place → Place → Prop := List.Lex (· < ·)

namespace Expr

def nodeAt? (expr : Expr) : Place → Option Expr
  | [] => some expr
  | index :: rest => expr.children[index]?.bind fun child => child.nodeAt? rest

/-- The places of a tree, the root first and then those of its children. -/
def places (expr : Expr) : List Place :=
  [] :: expr.children.attach.zipIdx.flatMap fun child => child.1.1.places.map (child.2 :: ·)
termination_by expr.size
decreasing_by exact size_lt_of_mem_children child.1.2

private theorem places_eq (expr : Expr) :
    expr.places = [] :: expr.children.zipIdx.flatMap fun child =>
      child.1.places.map (child.2 :: ·) := by
  have numbered : expr.children.zipIdx =
      expr.children.attach.zipIdx.map (Prod.map Subtype.val id) := by
    rw [← List.zipIdx_map, List.attach_map_subtype_val]
  rw [places, numbered, List.flatMap_map]
  rfl

private theorem mem_children_of_mem_zipIdx {expr : Expr} {child : Expr × Nat}
    (numbered : child ∈ expr.children.zipIdx) : child.1 ∈ expr.children :=
  List.mem_of_getElem? (List.mem_zipIdx_iff_getElem?.1 numbered)

/-- Below a child the tree is the child. -/
theorem nodeAt?_cons_of_mem_zipIdx {expr : Expr} {child : Expr × Nat}
    (numbered : child ∈ expr.children.zipIdx) (rest : Place) :
    expr.nodeAt? (child.2 :: rest) = child.1.nodeAt? rest := by
  rw [nodeAt?, List.mem_zipIdx_iff_getElem?.1 numbered, Option.bind_some]

/-- The places are those where there is a node. -/
theorem mem_places_iff {expr : Expr} {place : Place} :
    place ∈ expr.places ↔ (expr.nodeAt? place).isSome = true := by
  induction expr using induction_on_children generalizing place with
  | step expr inductionHypothesis =>
    rw [places_eq, List.mem_cons, List.mem_flatMap]
    constructor
    · rintro (rfl | ⟨child, numbered, below⟩)
      · rfl
      · obtain ⟨rest, inChild, rfl⟩ := List.mem_map.1 below
        rw [nodeAt?_cons_of_mem_zipIdx numbered]
        exact (inductionHypothesis child.1 (mem_children_of_mem_zipIdx numbered)).1 inChild
    · intro isNode
      cases place with
      | nil => exact .inl rfl
      | cons index rest =>
        right
        cases atIndex : expr.children[index]? with
        | none =>
          rw [nodeAt?, atIndex] at isNode
          cases isNode
        | some child =>
          have numbered : (child, index) ∈ expr.children.zipIdx :=
            List.mem_zipIdx_iff_getElem?.2 atIndex
          rw [nodeAt?_cons_of_mem_zipIdx numbered] at isNode
          have inChild :=
            (inductionHypothesis child (mem_children_of_mem_zipIdx numbered)).2 isNode
          exact ⟨(child, index), numbered, List.mem_map_of_mem inChild⟩

/-- The places are listed in their order, so none is listed twice. -/
theorem places_ordered (expr : Expr) : expr.places.Pairwise Place.Precedes := by
  induction expr using induction_on_children with
  | step expr inductionHypothesis =>
    rw [places_eq, List.pairwise_cons, List.pairwise_flatMap]
    refine ⟨?_, ?_, ?_⟩
    · intro place listed
      obtain ⟨child, -, below⟩ := List.mem_flatMap.1 listed
      obtain ⟨rest, -, rfl⟩ := List.mem_map.1 below
      exact .nil
    · intro child numbered
      rw [List.pairwise_map]
      exact (inductionHypothesis child.1 (mem_children_of_mem_zipIdx numbered)).imp .cons
    · have increasing : expr.children.zipIdx.Pairwise fun left right => left.2 < right.2 := by
        rw [← List.pairwise_map (f := Prod.snd), List.zipIdx_map_snd]
        exact List.pairwise_lt_range' 1
      refine increasing.imp ?_
      intro left right lower leftPlace inLeft rightPlace inRight
      obtain ⟨leftRest, -, rfl⟩ := List.mem_map.1 inLeft
      obtain ⟨rightRest, -, rfl⟩ := List.mem_map.1 inRight
      exact .rel lower

/-- The nodes of a tree are listed place by place. -/
theorem nodes_by_place (expr : Expr) : expr.nodes.map some = expr.places.map expr.nodeAt? := by
  induction expr using induction_on_children with
  | step expr inductionHypothesis =>
    have childrenEq : expr.children.flatMap nodes =
        expr.children.zipIdx.flatMap fun child => child.1.nodes := by
      rw [← List.flatMap_map (f := Prod.fst) (g := nodes), List.zipIdx_map_fst]
    rw [nodes_eq, places_eq, childrenEq, List.map_cons, List.map_cons, List.map_flatMap,
      List.map_flatMap]
    refine congrArg (some expr :: ·) (List.flatMap_congr fun child numbered => ?_)
    rw [inductionHypothesis child.1 (mem_children_of_mem_zipIdx numbered), List.map_map]
    refine List.map_congr_left fun rest _ => ?_
    exact (nodeAt?_cons_of_mem_zipIdx numbered rest).symm

/-- The nodes of a tree are what stands at its places. -/
theorem mem_nodes_iff {expr node : Expr} :
    node ∈ expr.nodes ↔ ∃ place, expr.nodeAt? place = some node := by
  have listed : node ∈ expr.nodes ↔ some node ∈ expr.nodes.map some := by simp
  rw [listed, nodes_by_place, List.mem_map]
  constructor
  · rintro ⟨place, -, atPlace⟩
    exact ⟨place, atPlace⟩
  · rintro ⟨place, atPlace⟩
    exact ⟨place, mem_places_iff.2 (Option.isSome_iff_exists.2 ⟨node, atPlace⟩), atPlace⟩

end Expr

end MappingForms
