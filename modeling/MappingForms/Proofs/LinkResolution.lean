import MappingForms.OptionalLinks
import MappingForms.Proofs.Expr.Children

/-!
Contract: the expansion of optional links terminates on every tree and leaves none of them.

Owns: the order in which expansion enters expressions, the law that the depth at which it
stops is never reached, and what the result of either policy can still hold.

The body of a guard is expanded with the tested receiver in place of the receiver, so the
expression that is entered can be larger than the guard it comes from. What has been tested
is itself a result of expansion and holds no guard. The number of guards therefore goes down
with each guard that is entered, but only because results hold no guard: both are proved in
one induction over that number.
-/

set_option autoImplicit false

namespace MappingForms

namespace Expr

/-! ## Calls without receiver -/

/-- A call without receiver that is flagged optional, its actual arguments aside. -/
structure LooseCall where
  target : CallableId
  style : CallStyle
  arity : Nat
  type : TypeRef
deriving DecidableEq

def looseCall? : Expr → Option LooseCall
  | call target style none arguments true type =>
    some { target, style, arity := arguments.length, type }
  | _ => none

def looseCalls (expr : Expr) : List LooseCall := expr.nodes.filterMap looseCall?

/-- A loose call is an optional call without receiver. -/
theorem eq_call_of_looseCall? {expr : Expr} {loose : LooseCall}
    (isLoose : expr.looseCall? = some loose) :
    ∃ arguments, expr = call loose.target loose.style none arguments true loose.type ∧
      arguments.length = loose.arity := by
  unfold looseCall? at isLoose
  split at isLoose
  · cases isLoose
    exact ⟨_, rfl, rfl⟩
  · cases isLoose

theorem mem_looseCalls {expr node : Expr} {loose : LooseCall} (member : node ∈ expr.nodes)
    (isLoose : node.looseCall? = some loose) : loose ∈ expr.looseCalls :=
  List.mem_filterMap.2 ⟨node, member, isLoose⟩

/-! ## Settled trees -/

/-- Every optional link of the tree is one of the given calls without receiver. -/
def Settled (origins : List LooseCall) (expr : Expr) : Prop :=
  ∀ node ∈ expr.nodes, node.isOptionalLink = true →
    ∃ origin ∈ origins, node.looseCall? = some origin

variable {origins : List LooseCall}

private theorem settled_of_children {expr : Expr}
    (own : expr.isOptionalLink = true → ∃ origin ∈ origins, expr.looseCall? = some origin)
    (parts : ∀ child ∈ expr.children, Settled origins child) : Settled origins expr := by
  intro node member
  rw [nodes_eq] at member
  rcases List.mem_cons.1 member with same | below
  · exact same ▸ own
  · obtain ⟨child, listed, inChild⟩ := List.mem_flatMap.1 below
    exact parts child listed node inChild

/-- A node that is no optional link is settled with its children. -/
theorem settled_of_plain {expr : Expr} (plain : expr.isOptionalLink = false)
    (parts : ∀ child ∈ expr.children, Settled origins child) : Settled origins expr :=
  settled_of_children (fun optional => by simp [plain] at optional) parts

theorem Settled.mono {others : List LooseCall} {expr : Expr} (settled : Settled origins expr)
    (included : ∀ loose ∈ origins, loose ∈ others) : Settled others expr := by
  intro node member optional
  obtain ⟨origin, known, isLoose⟩ := settled node member optional
  exact ⟨origin, included origin known, isLoose⟩

private theorem Settled.looseCalls_mem {expr : Expr} (settled : Settled origins expr) :
    ∀ loose ∈ expr.looseCalls, loose ∈ origins := by
  intro loose listed
  obtain ⟨node, member, isLoose⟩ := List.mem_filterMap.1 listed
  obtain ⟨arguments, rfl, -⟩ := eq_call_of_looseCall? isLoose
  obtain ⟨origin, known, sameLoose⟩ := settled _ member rfl
  rw [isLoose] at sameLoose
  exact Option.some.inj sameLoose ▸ known

private theorem Settled.guardCount_eq_zero {expr : Expr} (settled : Settled origins expr) :
    expr.guardCount = 0 := by
  refine List.countP_eq_zero.2 fun node member isGuard => ?_
  cases node with
  | guarded receiver body type =>
    obtain ⟨origin, -, isLoose⟩ := settled _ member rfl
    cases isLoose
  | _ => cases isGuard

private theorem settled_literal (value : Literal) (type : TypeRef) :
    Settled origins (literal value type) :=
  settled_of_plain rfl (by simp [children])

private theorem settled_testedAccess {current access : Expr} (optional : Bool) (nullType : TypeRef)
    (currentSettled : Settled origins current) (accessSettled : Settled origins access) :
    Settled origins (testedAccess optional nullType current access) := by
  cases optional with
  | false => exact accessSettled
  | true =>
    have checkSettled : Settled origins current.notNullCheck :=
      settled_of_plain rfl (by simp [notNullCheck, nullLike, children, currentSettled,
        settled_literal])
    exact settled_of_plain rfl (by
      simp [testedAccess, children, checkSettled, accessSettled, settled_literal])

/-! ## The number of guards -/

def isGuard : Expr → Bool
  | guarded .. => true
  | _ => false

private theorem guardCount_eq_countP (expr : Expr) : expr.guardCount = expr.nodes.countP isGuard :=
  congrArg (expr.nodes.countP ·) (funext fun node => by cases node <;> rfl)

private theorem guardCount_eq (expr : Expr) :
    expr.guardCount = (expr.children.flatMap nodes).countP isGuard + expr.isGuard.toNat := by
  rw [guardCount_eq_countP, nodes_eq, List.countP_cons]
  cases expr.isGuard <;> rfl

private theorem guardCount_le_of_mem_children {expr child : Expr} (listed : child ∈ expr.children) :
    child.guardCount ≤ expr.guardCount :=
  (nodes_sublist_of_mem_nodes
    (mem_nodes_of_mem_children listed child.mem_nodes_self)).countP_le

private theorem guardCount_body_lt {expr receiver body : Expr} {type : TypeRef}
    (member : guarded receiver body type ∈ expr.nodes) : body.guardCount < expr.guardCount := by
  have guardBelow : (guarded receiver body type).guardCount ≤ expr.guardCount :=
    (nodes_sublist_of_mem_nodes member).countP_le
  have guardEq := guardCount_eq (guarded receiver body type)
  simp only [children, isGuard, Bool.toNat_true, List.flatMap_cons, List.flatMap_nil,
    List.countP_append, List.countP_nil, ← guardCount_eq_countP] at guardEq
  omega

/-! ## Replacement -/

private theorem replaceInAll_eq_map (old new : Expr) (exprs : List Expr) :
    replaceInAll old new exprs = exprs.map (replace old new) := by
  induction exprs with
  | nil => rfl
  | cons first rest inductionHypothesis => rw [replaceInAll, inductionHypothesis, List.map_cons]

private theorem replaceInInitializers_eq_map (old new : Expr) (initializers : List Initializer) :
    replaceInInitializers old new initializers =
      initializers.map fun init => ⟨init.member, init.memberType, replace old new init.value⟩ := by
  induction initializers with
  | nil => rfl
  | cons first rest inductionHypothesis =>
    obtain ⟨name, declared, value⟩ := first
    rw [replaceInInitializers, inductionHypothesis, List.map_cons]
    rfl

/-- Replacement puts the new tree in place of an equal one, and goes on with the children
otherwise. -/
theorem replace_eq (old new expr : Expr) :
    replace old new expr =
      if expr.same old then new else expr.mapChildren (replace old new) := by
  cases expr with
  | call target style receiver arguments optional type =>
    cases receiver <;> simp [replace, mapChildren, replaceInAll_eq_map]
  | _ => simp [replace, mapChildren, replaceInAll_eq_map, replaceInInitializers_eq_map]

private theorem countP_flatMap_le {α β : Type} {test : β → Bool} {first second : α → List β}
    {items : List α}
    (below : ∀ item ∈ items, (first item).countP test ≤ (second item).countP test) :
    (items.flatMap first).countP test ≤ (items.flatMap second).countP test := by
  induction items with
  | nil => exact Nat.le_refl _
  | cons item rest inductionHypothesis =>
    have atItem := below item List.mem_cons_self
    have inRest := inductionHypothesis fun other listed =>
      below other (List.mem_cons_of_mem _ listed)
    simp only [List.flatMap_cons, List.countP_append]
    omega

private theorem guardCount_mapChildren_le {change : Expr → Expr} {expr : Expr}
    (below : ∀ child ∈ expr.children, (change child).guardCount ≤ child.guardCount) :
    (expr.mapChildren change).guardCount ≤ expr.guardCount := by
  have sameKind : (expr.mapChildren change).isGuard = expr.isGuard := by cases expr <;> rfl
  simp only [guardCount_eq_countP] at below
  rw [guardCount_eq, guardCount_eq expr, children_mapChildren, List.flatMap_map, sameKind]
  exact Nat.add_le_add_right (countP_flatMap_le below) _

/-- Something without guards in place of a subtree adds no guard. -/
theorem guardCount_replace_le (old : Expr) {new : Expr} (free : new.guardCount = 0)
    (expr : Expr) : (replace old new expr).guardCount ≤ expr.guardCount := by
  induction expr using induction_on_children with
  | step expr inductionHypothesis =>
    rw [replace_eq]
    split
    · omega
    · exact guardCount_mapChildren_le inductionHypothesis

private theorem guardCount_replace_body_lt {expr receiver body current : Expr} {type : TypeRef}
    (member : guarded receiver body type ∈ expr.nodes) (free : current.guardCount = 0) :
    (replace receiver current body).guardCount < expr.guardCount :=
  Nat.lt_of_le_of_lt (guardCount_replace_le receiver free body) (guardCount_body_lt member)

private theorem looseCall?_mapChildren (change : Expr → Expr) (expr : Expr) :
    (expr.mapChildren change).looseCall? = expr.looseCall? := by
  cases expr with
  | call target style receiver arguments optional type =>
    cases receiver <;> cases optional <;> simp [mapChildren, looseCall?]
  | _ => rfl

private theorem mem_looseCalls_replace {old new expr : Expr} {loose : LooseCall}
    (listed : loose ∈ (replace old new expr).looseCalls) :
    loose ∈ new.looseCalls ∨ loose ∈ expr.looseCalls := by
  induction expr using induction_on_children with
  | step expr inductionHypothesis =>
    rw [replace_eq] at listed
    split at listed
    · exact .inl listed
    · obtain ⟨node, member, isLoose⟩ := List.mem_filterMap.1 listed
      rw [nodes_eq, children_mapChildren] at member
      rcases List.mem_cons.1 member with same | below
      · rw [same, looseCall?_mapChildren] at isLoose
        exact .inr (mem_looseCalls expr.mem_nodes_self isLoose)
      · obtain ⟨replaced, isReplaced, inReplaced⟩ := List.mem_flatMap.1 below
        obtain ⟨child, isChild, rfl⟩ := List.mem_map.1 isReplaced
        refine (inductionHypothesis child isChild (mem_looseCalls inReplaced isLoose)).imp_right ?_
        intro inChild
        obtain ⟨origin, inOrigin, originLoose⟩ := List.mem_filterMap.1 inChild
        exact mem_looseCalls (mem_nodes_of_mem_children isChild inOrigin) originLoose

/-! ## Expansion with a given treatment of guards -/

theorem expandAll_eq_map (expansion : LinkExpansion) (exprs : List Expr) :
    expandAll expansion exprs = exprs.map (expandWith expansion) := by
  induction exprs with
  | nil => rfl
  | cons first rest inductionHypothesis => rw [expandAll, inductionHypothesis, List.map_cons]; rfl

private theorem expandInitializers_eq_map (expansion : LinkExpansion)
    (initializers : List Initializer) :
    expandInitializers expansion initializers =
      initializers.map fun init =>
        ⟨init.member, init.memberType, init.value.expandWith expansion⟩ := by
  induction initializers with
  | nil => rfl
  | cons first rest inductionHypothesis =>
    obtain ⟨name, declared, value⟩ := first
    rw [expandInitializers, inductionHypothesis, List.map_cons]
    rfl

/-- The nodes hold no loose calls but the given ones, and their guards are resolved to settled
trees wherever a settled tree stands for the receiver. -/
structure Resolvable (expansion : LinkExpansion) (origins : List LooseCall)
    (nodes : List Expr) : Prop where
  loose : ∀ node ∈ nodes, ∀ call, node.looseCall? = some call → call ∈ origins
  guards : ∀ receiver body type, guarded receiver body type ∈ nodes →
    ∀ current, Settled origins current →
      Settled origins (expansion.resolveGuard receiver body current)

variable {expansion : LinkExpansion}

theorem Resolvable.child {expr child : Expr} (resolvable : Resolvable expansion origins expr.nodes)
    (listed : child ∈ expr.children) : Resolvable expansion origins child.nodes where
  loose node member := resolvable.loose node (mem_nodes_of_mem_children listed member)
  guards receiver body type member :=
    resolvable.guards receiver body type (mem_nodes_of_mem_children listed member)

/-- An expression that continues no chain is expanded part by part. -/
theorem expandChain_of_base {expr : Expr} (base : expr.chainReceiver = none) (nullType : TypeRef)
    (continuation : Expr → Expr) :
    expr.expandChain expansion nullType continuation =
      continuation (expr.mapChildren (expandWith expansion)) := by
  cases expr with
  | call target style receiver arguments optional type =>
    obtain rfl : receiver = none := base
    simp [expandChain, mapChildren, expandAll_eq_map]
  | construct type arguments initializers =>
    rw [expandChain, mapChildren, expandAll_eq_map, expandInitializers_eq_map]
  | member | projection | guarded => cases base
  | _ => rfl

private theorem settled_mapChildren_of_base {change : Expr → Expr} {expr : Expr}
    (base : expr.chainReceiver = none)
    (loose : ∀ call, expr.looseCall? = some call → call ∈ origins)
    (settled : ∀ child ∈ expr.children, Settled origins (change child)) :
    Settled origins (expr.mapChildren change) := by
  refine settled_of_children (fun isOptional => ?_) ?_
  · cases expr with
    | call target style receiver arguments optional type =>
      obtain rfl : receiver = none := base
      obtain rfl : optional = true := isOptional
      exact ⟨_, loose _ rfl, looseCall?_mapChildren change _⟩
    | member | projection | guarded => cases base
    | _ => cases isOptional
  · rw [children_mapChildren]
    intro child listed
    obtain ⟨origin, isChild, rfl⟩ := List.mem_map.1 listed
    exact settled origin isChild

private theorem settled_expandChain {expr : Expr}
    (resolvable : Resolvable expansion origins expr.nodes)
    (nullType : TypeRef) (continuation : Expr → Expr)
    (keeps : ∀ current, Settled origins current → Settled origins (continuation current)) :
    Settled origins (expr.expandChain expansion nullType continuation) := by
  induction expr using induction_on_children generalizing nullType continuation with
  | step expr inductionHypothesis =>
    have whole : ∀ child ∈ expr.children, Settled origins (child.expandWith expansion) :=
      fun child listed =>
        inductionHypothesis child listed (resolvable.child listed) _ id fun _ settled => settled
    have chained := fun child listed =>
      inductionHypothesis child listed (resolvable.child listed) nullType
    have atBase (base : expr.chainReceiver = none) :
        Settled origins (expr.expandChain expansion nullType continuation) := by
      rw [expandChain_of_base base]
      exact keeps _
        (settled_mapChildren_of_base base (resolvable.loose _ expr.mem_nodes_self) whole)
    cases expr with
    | member receiver name optional type =>
      refine chained receiver List.mem_cons_self _ fun current settled => ?_
      refine settled_testedAccess optional nullType settled (keeps _ ?_)
      exact settled_of_plain rfl (by simpa [children] using settled)
    | call target style receiver arguments optional type =>
      cases receiver with
      | none => exact atBase rfl
      | some receiver =>
        refine chained receiver List.mem_cons_self _ fun current settled => ?_
        refine settled_testedAccess optional nullType settled (keeps _ (settled_of_plain rfl ?_))
        have argumentsSettled : ∀ argument ∈ arguments,
            Settled origins (argument.expandWith expansion) :=
          fun argument listed => whole argument (List.mem_append_right _ listed)
        simpa [children, expandAll_eq_map] using ⟨settled, argumentsSettled⟩
    | projection source element transform materialize type =>
      have transformSettled := whole transform (List.mem_cons_of_mem _ List.mem_cons_self)
      refine chained source List.mem_cons_self _ fun current settled => keeps _ ?_
      refine settled_of_plain rfl ?_
      simpa [children] using ⟨settled, transformSettled⟩
    | guarded receiver body type =>
      refine chained receiver List.mem_cons_self _ fun current settled => ?_
      refine settled_testedAccess true nullType settled (keeps _ ?_)
      exact resolvable.guards receiver body type (mem_nodes_self _) current settled
    | _ => exact atBase rfl

/-- The result of an expansion depends on its treatment of the guards that the tree holds, and
there only for settled trees in place of the receiver. -/
theorem expandChain_congr {other : LinkExpansion} {expr : Expr}
    (resolvable : Resolvable expansion origins expr.nodes)
    (sameContext : expansion.context = other.context)
    (agree : ∀ receiver body type, guarded receiver body type ∈ expr.nodes →
      ∀ current, Settled origins current →
        expansion.resolveGuard receiver body current = other.resolveGuard receiver body current)
    (nullType : TypeRef) (continuation next : Expr → Expr)
    (continueAlike : ∀ current, Settled origins current → continuation current = next current) :
    expr.expandChain expansion nullType continuation = expr.expandChain other nullType next := by
  induction expr using induction_on_children generalizing nullType continuation next with
  | step expr inductionHypothesis =>
    have agreeBelow := fun child (listed : child ∈ expr.children) receiver body type member =>
      agree receiver body type (mem_nodes_of_mem_children listed member)
    have whole : ∀ child ∈ expr.children, child.expandWith expansion = child.expandWith other := by
      intro child listed
      unfold expandWith
      rw [← sameContext]
      exact inductionHypothesis child listed (resolvable.child listed) (agreeBelow child listed)
        _ id id fun _ _ => rfl
    have settledWhole : ∀ child ∈ expr.children, Settled origins (child.expandWith expansion) :=
      fun child listed =>
        settled_expandChain (resolvable.child listed) _ id fun _ settled => settled
    have chained := fun child listed =>
      inductionHypothesis child listed (resolvable.child listed) (agreeBelow child listed) nullType
    have atBase (base : expr.chainReceiver = none) :
        expr.expandChain expansion nullType continuation =
          expr.expandChain other nullType next := by
      rw [expandChain_of_base base, expandChain_of_base base, ← mapChildren_congr whole]
      exact continueAlike _
        (settled_mapChildren_of_base base (resolvable.loose _ expr.mem_nodes_self) settledWhole)
    cases expr with
    | member receiver name optional type =>
      refine chained receiver List.mem_cons_self _ _ fun current settled => ?_
      rw [continueAlike]
      exact settled_of_plain rfl (by simpa [children] using settled)
    | call target style receiver arguments optional type =>
      cases receiver with
      | none => exact atBase rfl
      | some receiver =>
        have argumentsEq : expandAll expansion arguments = expandAll other arguments := by
          rw [expandAll_eq_map, expandAll_eq_map]
          exact List.map_congr_left fun argument listed =>
            whole argument (List.mem_append_right _ listed)
        have argumentsSettled : ∀ argument ∈ arguments,
            Settled origins (argument.expandWith expansion) :=
          fun argument listed => settledWhole argument (List.mem_append_right _ listed)
        rw [expandChain, expandChain, ← argumentsEq]
        refine chained receiver List.mem_cons_self _ _ fun current settled => ?_
        rw [continueAlike]
        refine settled_of_plain rfl ?_
        simpa [children, expandAll_eq_map] using ⟨settled, argumentsSettled⟩
    | projection source element transform materialize type =>
      have transformListed :
          transform ∈ (projection source element transform materialize type).children :=
        List.mem_cons_of_mem _ List.mem_cons_self
      have transformEq := whole transform transformListed
      have transformSettled := settledWhole transform transformListed
      unfold expandWith at transformEq transformSettled
      rw [expandChain, expandChain, ← transformEq]
      refine chained source List.mem_cons_self _ _ fun current settled => continueAlike _ ?_
      refine settled_of_plain rfl ?_
      simpa [children] using ⟨settled, transformSettled⟩
    | guarded receiver body type =>
      have isNode := mem_nodes_self (guarded receiver body type)
      refine chained receiver List.mem_cons_self _ _ fun current settled => ?_
      rw [← agree receiver body type isNode current settled,
        continueAlike _ (resolvable.guards receiver body type isNode current settled)]
    | _ => exact atBase rfl

private theorem expandWith_congr {other : LinkExpansion} {expr : Expr}
    (resolvable : Resolvable expansion origins expr.nodes)
    (sameContext : expansion.context = other.context)
    (agree : ∀ receiver body type, guarded receiver body type ∈ expr.nodes →
      ∀ current, Settled origins current →
        expansion.resolveGuard receiver body current = other.resolveGuard receiver body current) :
    expandWith expansion expr = expandWith other expr := by
  unfold expandWith
  rw [← sameContext]
  exact expandChain_congr resolvable sameContext agree _ id id fun _ _ => rfl

/-! ## Guards within the bodies of guards -/

/-- The expansion that treats the body of a guard, once the tested receiver stands in it, with
a given function. -/
def LinkExpansion.ofBodies (context : NullableContext) (treat : Expr → Expr) : LinkExpansion where
  context := context
  resolveGuard receiver body current := treat (replace receiver current body)

variable (context : NullableContext)

private theorem expandToDepth_zero :
    expandToDepth context 0 = expandWith (.ofBodies context id) := rfl

private theorem expandToDepth_succ (depth : Nat) :
    expandToDepth context (depth + 1) =
      expandWith (.ofBodies context (expandToDepth context depth)) := rfl

private theorem resolvable_ofBodies {treat : Expr → Expr} {expr : Expr}
    (settles : ∀ inner, inner.guardCount < expr.guardCount →
      Settled inner.looseCalls (treat inner)) :
    Resolvable (.ofBodies context treat) expr.looseCalls expr.nodes where
  loose _ member _ isLoose := mem_looseCalls member isLoose
  guards receiver body type member current settled := by
    have fewer := guardCount_replace_body_lt member settled.guardCount_eq_zero
    refine (settles _ fewer).mono fun loose listed => ?_
    rcases mem_looseCalls_replace listed with inCurrent | inBody
    · exact settled.looseCalls_mem loose inCurrent
    · have bodyNodes : body.nodes.Sublist expr.nodes :=
        (nodes_sublist_of_mem_nodes (mem_nodes_of_mem_children
          (List.mem_cons_of_mem _ List.mem_cons_self) body.mem_nodes_self)).trans
          (nodes_sublist_of_mem_nodes member)
      exact (bodyNodes.filterMap looseCall?).subset inBody

private theorem settled_expandToDepth {depth : Nat} {expr : Expr}
    (within : expr.guardCount ≤ depth) :
    Settled expr.looseCalls (expandToDepth context depth expr) := by
  induction depth generalizing expr with
  | zero =>
    rw [expandToDepth_zero]
    refine settled_expandChain (resolvable_ofBodies context fun inner fewer => ?_) _ id
      fun _ settled => settled
    omega
  | succ depth inductionHypothesis =>
    rw [expandToDepth_succ]
    refine settled_expandChain (resolvable_ofBodies context fun inner fewer => ?_) _ id
      fun _ settled => settled
    exact inductionHypothesis (by omega)

private theorem expandWith_ofBodies_congr {treat other : Expr → Expr} {expr : Expr}
    (settles : ∀ inner, inner.guardCount < expr.guardCount →
      Settled inner.looseCalls (treat inner))
    (agree : ∀ inner, inner.guardCount < expr.guardCount → treat inner = other inner) :
    expandWith (.ofBodies context treat) expr = expandWith (.ofBodies context other) expr := by
  refine expandWith_congr (resolvable_ofBodies context settles) rfl ?_
  intro receiver body type member current settled
  exact agree _ (guardCount_replace_body_lt member settled.guardCount_eq_zero)

/-- A depth that guards do not exceed makes no difference. -/
theorem expandToDepth_stable {depth : Nat} {expr : Expr} (within : expr.guardCount ≤ depth) :
    expandToDepth context (depth + 1) expr = expandToDepth context depth expr := by
  induction depth generalizing expr with
  | zero =>
    rw [expandToDepth_succ, expandToDepth_zero]
    refine expandWith_ofBodies_congr context ?_ ?_ <;> intro inner fewer <;> omega
  | succ depth inductionHypothesis =>
    show expandWith (.ofBodies context (expandToDepth context (depth + 1))) expr =
      expandWith (.ofBodies context (expandToDepth context depth)) expr
    refine expandWith_ofBodies_congr context (fun inner fewer => ?_) fun inner fewer => ?_
    · exact settled_expandToDepth context (by omega)
    · exact inductionHypothesis (by omega)

private theorem expandToDepth_eq_expandLinks {depth : Nat} {expr : Expr}
    (within : expr.guardCount ≤ depth) :
    expandToDepth context depth expr = expandLinks context expr := by
  induction within with
  | refl => rfl
  | step within inductionHypothesis =>
    rw [expandToDepth_stable context within, inductionHypothesis]

/-- Expansion leaves no optional links but the loose calls of the expression. -/
theorem settled_expandLinks (expr : Expr) : Settled expr.looseCalls (expandLinks context expr) :=
  settled_expandToDepth context (Nat.le_refl _)

/-- Expansion treats the bodies of guards with itself. It asks for nothing but the guards of the
tree, with trees without guards in place of their receivers. -/
theorem expandWith_eq_expandLinks {expr : Expr} {resolveGuard : Expr → Expr → Expr → Expr}
    (recursive : ∀ receiver body type current, guarded receiver body type ∈ expr.nodes →
      current.guardCount = 0 →
      resolveGuard receiver body current = expandLinks context (replace receiver current body)) :
    expandWith { context, resolveGuard } expr = expandLinks context expr := by
  have deeper : expandLinks context expr =
      expandWith (.ofBodies context (expandToDepth context expr.guardCount)) expr := by
    rw [← expandToDepth_succ, expandToDepth_stable context (Nat.le_refl _)]
    rfl
  rw [deeper]
  symm
  refine expandWith_congr (resolvable_ofBodies context fun inner fewer => ?_) rfl ?_
  · exact settled_expandToDepth context (Nat.le_of_lt fewer)
  · intro receiver body type member current settled
    have free := settled.guardCount_eq_zero
    have fewer := guardCount_replace_body_lt member free
    exact (expandToDepth_eq_expandLinks context (Nat.le_of_lt fewer)).trans
      (recursive receiver body type current member free).symm

/-- No other function treats the bodies of guards with itself. -/
theorem eq_expandLinks_of_recursion {expand : Expr → Expr}
    (recursion : ∀ expr, expand expr = expandWith (.ofBodies context expand) expr) :
    expand = expandLinks context := by
  have bounded : ∀ bound expr, expr.guardCount < bound →
      expand expr = expandLinks context expr := by
    intro bound
    induction bound with
    | zero => intro expr impossible; omega
    | succ bound inductionHypothesis =>
      intro expr within
      rw [recursion]
      refine expandWith_eq_expandLinks context fun receiver body type current member free => ?_
      have fewer := guardCount_replace_body_lt member free
      exact inductionHypothesis _ (by omega)
  exact funext fun expr => bounded _ expr (Nat.lt_succ_self _)

/-! ## The order of entry -/

/-- Expansion enters an expression while it works on another one: a child, or the body of a
guard with a tree without guards in place of the receiver. -/
inductive Enters : Expr → Expr → Prop where
  | child {child expr : Expr} (listed : child ∈ expr.children) : Enters child expr
  | body {receiver body current : Expr} {type : TypeRef} (free : current.guardCount = 0) :
      Enters (replace receiver current body) (guarded receiver body type)

/-- Expansion ends: there is no infinite chain of entered expressions. -/
theorem wellFounded_enters : WellFounded Enters := by
  -- A child has no more guards and fewer nodes; a body has fewer guards and any number of nodes.
  have lexicographic := InvImage.wf (fun expr : Expr => (expr.guardCount, expr.size))
    (Prod.lex Nat.lt_wfRel Nat.lt_wfRel).wf
  refine Subrelation.wf (fun {inner outer} enters => ?_) lexicographic
  cases enters with
  | child listed =>
    have smaller := size_lt_of_mem_children listed
    rcases Nat.lt_or_eq_of_le (guardCount_le_of_mem_children listed) with fewer | same
    · exact Prod.Lex.left _ _ fewer
    · exact Prod.Lex.right' _ (Nat.le_of_eq same) smaller
  | body free => exact Prod.Lex.left _ _ (guardCount_replace_body_lt (mem_nodes_self _) free)

/-! ## Ignored links -/

theorem ignoreLinksOfAll_eq_map (exprs : List Expr) :
    ignoreLinksOfAll exprs = exprs.map ignoreLinks := by
  induction exprs with
  | nil => rfl
  | cons first rest inductionHypothesis => rw [ignoreLinksOfAll, inductionHypothesis, List.map_cons]

theorem ignoreLinksOfInitializers_eq_map (initializers : List Initializer) :
    ignoreLinksOfInitializers initializers =
      initializers.map fun init => ⟨init.member, init.memberType, init.value.ignoreLinks⟩ := by
  induction initializers with
  | nil => rfl
  | cons first rest inductionHypothesis =>
    obtain ⟨name, declared, value⟩ := first
    rw [ignoreLinksOfInitializers, inductionHypothesis, List.map_cons]
    rfl

/-- Ignoring links leaves none. -/
theorem settled_ignoreLinks (expr : Expr) : Settled [] expr.ignoreLinks := by
  induction expr using induction_on_children with
  | step expr inductionHypothesis =>
    cases expr with
    | call target style receiver arguments optional type =>
      cases receiver <;>
        exact settled_of_plain rfl (by
          simpa [ignoreLinks, children, ignoreLinksOfAll_eq_map] using inductionHypothesis)
    | construct type arguments initializers =>
      refine settled_of_plain rfl ?_
      simp only [ignoreLinks, children, ignoreLinksOfAll_eq_map, ignoreLinksOfInitializers_eq_map,
        List.map_map]
      intro child listed
      rcases List.mem_append.1 listed with isArgument | isValue
      · obtain ⟨argument, argumentListed, rfl⟩ := List.mem_map.1 isArgument
        exact inductionHypothesis argument (List.mem_append_left _ argumentListed)
      · obtain ⟨init, initListed, rfl⟩ := List.mem_map.1 isValue
        exact inductionHypothesis init.value
          (List.mem_append_right _ (List.mem_map_of_mem initListed))
    | guarded receiver body type =>
      exact inductionHypothesis body (List.mem_cons_of_mem _ List.mem_cons_self)
    | literal value type => exact settled_literal value type
    | parameter name type => exact settled_of_plain rfl (by simp [ignoreLinks, children])
    | _ => exact settled_of_plain rfl (by simpa [ignoreLinks, children] using inductionHypothesis)

/-- A tree that is settled without loose calls holds no optional link and no guard. -/
theorem containsOptionalLink_of_settled_nil {expr : Expr} (settled : Settled [] expr) :
    expr.containsOptionalLink = false := by
  refine List.any_eq_false.2 fun node member isOptional => ?_
  obtain ⟨origin, impossible, -⟩ := settled node member isOptional
  cases impossible

/-- Both policies that resolve optional links end and leave none that they can resolve.

Expansion enters expressions in a well-founded order, although the body of a guard can grow when
the tested receiver is put into it. Its result solves the recursion in which the body of a guard
is expanded once more, and nothing else does. That result holds no guard, no optional access and
no optional call on a receiver; an optional link in it is a call without receiver of the input.
The other policy leaves no optional link at all. -/
theorem resolveLinks_resolves (context : NullableContext) :
    WellFounded Enters ∧
    (∀ (expr : Expr) (resolveGuard : Expr → Expr → Expr → Expr),
      (∀ receiver body type current, guarded receiver body type ∈ expr.nodes →
        current.guardCount = 0 →
        resolveGuard receiver body current =
          (replace receiver current body).resolveLinks .expand context) →
      expandWith { context, resolveGuard } expr = expr.resolveLinks .expand context) ∧
    (∀ expand : Expr → Expr,
      (∀ expr, expand expr =
        expandWith
          { context
            resolveGuard := fun receiver body current => expand (replace receiver current body) }
          expr) →
      expand = resolveLinks .expand context) ∧
    (∀ expr : Expr,
      (∀ receiver body type,
        guarded receiver body type ∉ (expr.resolveLinks .expand context).nodes) ∧
      (∀ receiver name type,
        member receiver name true type ∉ (expr.resolveLinks .expand context).nodes) ∧
      (∀ target style receiver arguments type,
        call target style (some receiver) arguments true type ∉
          (expr.resolveLinks .expand context).nodes) ∧
      (∀ node ∈ (expr.resolveLinks .expand context).nodes, node.isOptionalLink = true →
        ∃ target style arguments expanded type,
          node = call target style none expanded true type ∧
          call target style none arguments true type ∈ expr.nodes ∧
          expanded.length = arguments.length)) ∧
    (∀ expr : Expr, (expr.resolveLinks .ignore context).containsOptionalLink = false) := by
  refine ⟨wellFounded_enters, fun _ _ => expandWith_eq_expandLinks context,
    fun _ => eq_expandLinks_of_recursion context, fun expr => ?_,
    fun expr => containsOptionalLink_of_settled_nil (settled_ignoreLinks expr)⟩
  have settled := settled_expandLinks context expr
  have origin : ∀ node ∈ (expandLinks context expr).nodes, node.isOptionalLink = true →
      ∃ target style arguments expanded type,
        node = call target style none expanded true type ∧
        call target style none arguments true type ∈ expr.nodes ∧
        expanded.length = arguments.length := by
    intro node member isOptional
    obtain ⟨loose, listed, isLoose⟩ := settled node member isOptional
    obtain ⟨input, inInput, inputLoose⟩ := List.mem_filterMap.1 listed
    obtain ⟨expanded, nodeEq, expandedLength⟩ := eq_call_of_looseCall? isLoose
    obtain ⟨arguments, rfl, argumentsLength⟩ := eq_call_of_looseCall? inputLoose
    exact ⟨_, _, arguments, expanded, _, nodeEq, inInput, by omega⟩
  refine ⟨?_, ?_, ?_, origin⟩
  · intro receiver body type member
    obtain ⟨_, _, _, _, _, impossible, -⟩ := origin _ member rfl
    cases impossible
  · intro receiver name type member
    obtain ⟨_, _, _, _, _, impossible, -⟩ := origin _ member rfl
    cases impossible
  · intro target style receiver arguments type member
    obtain ⟨_, _, _, _, _, impossible, -⟩ := origin _ member rfl
    cases impossible

end Expr

end MappingForms
