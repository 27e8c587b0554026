import MappingForms.Inlining
import MappingForms.Proofs.Expr.Scope
import MappingForms.Proofs.LinkResolution

/-!
Contract: when the receiver of a guard is replaced hygienically in the body of the guard.

Owns: replacement that respects scopes, receivers that a projection of the body rebinds, and the
guards of which no such receiver can be part.

Replacement compares subtrees and does not look at the projections around them. A subtree that
reads like the receiver denotes something else where a projection rebinds a name of the receiver.
-/

set_option autoImplicit false

namespace MappingForms

namespace Expr

/-! ## Replacement that respects scopes -/

/-- Replacement up to a depth that stays out of the transforms in which a name of `old` is bound
anew. -/
def replaceFreeToDepth (old new : Expr) : Nat → Expr → Expr
  | 0, expr => expr
  | depth + 1, expr =>
    if expr.same old then new
    else match expr with
      | projection source element transform materialize type =>
        projection (replaceFreeToDepth old new depth source) element
          (if element ∈ old.freeNames then transform
            else replaceFreeToDepth old new depth transform) materialize type
      | other => other.mapChildren (replaceFreeToDepth old new depth)

/-- Puts `new` in place of every subtree that equals `old` and whose names mean what they mean
in `old`. -/
def replaceFree (old new expr : Expr) : Expr := replaceFreeToDepth old new expr.size expr

section Replacement

variable (old new : Expr)

private theorem replaceFreeToDepth_succ_of_neutral (depth : Nat) {expr : Expr}
    (neutral : expr.isNeutral = true) :
    replaceFreeToDepth old new (depth + 1) expr =
      if expr.same old then new else expr.mapChildren (replaceFreeToDepth old new depth) := by
  cases expr with
  | parameter | projection => cases neutral
  | _ => rfl

private theorem replaceFreeToDepth_of_size_le {depth : Nat} {expr : Expr}
    (enough : expr.size ≤ depth) :
    replaceFreeToDepth old new depth expr = replaceFree old new expr := by
  -- Both depths are enough, so the statement is about two depths.
  suffices agree : ∀ (bound other : Nat) (expr : Expr), expr.size ≤ bound → expr.size ≤ other →
      replaceFreeToDepth old new bound expr = replaceFreeToDepth old new other expr from
    agree depth expr.size expr enough (Nat.le_refl _)
  intro bound
  induction bound with
  | zero =>
    intro other expr within
    exact absurd within (Nat.not_le.2 expr.size_pos)
  | succ bound inductionHypothesis =>
    intro other expr within otherEnough
    obtain ⟨other, rfl⟩ : ∃ lower, other = lower + 1 :=
      ⟨other - 1, by have := expr.size_pos; omega⟩
    have below : ∀ child ∈ expr.children,
        replaceFreeToDepth old new bound child = replaceFreeToDepth old new other child := by
      intro child listed
      have smaller := size_lt_of_mem_children listed
      exact inductionHypothesis other child (by omega) (by omega)
    cases expr with
    | projection source element transform materialize type =>
      simp only [replaceFreeToDepth, below source List.mem_cons_self,
        below transform (List.mem_cons_of_mem _ List.mem_cons_self)]
    | parameter name type => rfl
    | _ =>
      rw [replaceFreeToDepth_succ_of_neutral old new _ rfl,
        replaceFreeToDepth_succ_of_neutral old new _ rfl, mapChildren_congr below]

variable {old new}

private theorem replaceFree_of_same {expr : Expr} (same : expr.same old = true) :
    replaceFree old new expr = new := by
  rw [← replaceFreeToDepth_of_size_le old new (Nat.le_succ expr.size)]
  exact if_pos same

private theorem replaceFree_projection {source transform : Expr} {element : String}
    {materialize : Option String} {type : TypeRef}
    (different : (projection source element transform materialize type).same old = false) :
    replaceFree old new (projection source element transform materialize type) =
      projection (replaceFree old new source) element
        (if element ∈ old.freeNames then transform else replaceFree old new transform)
        materialize type := by
  have below : ∀ child ∈ (projection source element transform materialize type).children,
      replaceFreeToDepth old new (projection source element transform materialize type).size child =
        replaceFree old new child := fun child listed =>
    replaceFreeToDepth_of_size_le old new (Nat.le_of_lt (size_lt_of_mem_children listed))
  rw [← replaceFreeToDepth_of_size_le old new (Nat.le_succ _), replaceFreeToDepth,
    if_neg (Bool.eq_false_iff.1 different), below source List.mem_cons_self,
    below transform (List.mem_cons_of_mem _ List.mem_cons_self)]

private theorem replaceFree_of_neutral {expr : Expr} (neutral : expr.isNeutral = true)
    (different : expr.same old = false) :
    replaceFree old new expr = expr.mapChildren (replaceFree old new) := by
  rw [← replaceFreeToDepth_of_size_le old new (Nat.le_succ _),
    replaceFreeToDepth_succ_of_neutral old new _ neutral, if_neg (Bool.eq_false_iff.1 different)]
  exact mapChildren_congr fun child listed =>
    replaceFreeToDepth_of_size_le old new (Nat.le_of_lt (size_lt_of_mem_children listed))

end Replacement

/-! ## Equal trees -/

private theorem forall₂_of_sameAll {left right : List Expr} (same : sameAll left right = true) :
    List.Forall₂ (fun first second => first.same second = true) left right := by
  induction left generalizing right with
  | nil =>
    cases right with
    | nil => exact .nil
    | cons => cases same
  | cons first rest inductionHypothesis =>
    cases right with
    | nil => cases same
    | cons second others =>
      rw [sameAll, Bool.and_eq_true] at same
      exact .cons same.1 (inductionHypothesis same.2)

private theorem forall₂_of_sameInitializers {left right : List Initializer}
    (same : sameInitializers left right = true) :
    List.Forall₂ (fun first second => first.same second = true) (left.map (·.value))
      (right.map (·.value)) := by
  induction left generalizing right with
  | nil =>
    cases right with
    | nil => exact .nil
    | cons => cases same
  | cons first rest inductionHypothesis =>
    obtain ⟨name, declared, value⟩ := first
    cases right with
    | nil => cases same
    | cons second others =>
      obtain ⟨otherName, otherDeclared, otherValue⟩ := second
      simp only [sameInitializers, Bool.and_eq_true] at same
      exact .cons same.1.2 (inductionHypothesis same.2)

/-- Equal trees have equal children. -/
theorem forall₂_children_of_same {left right : Expr} (same : left.same right = true) :
    List.Forall₂ (fun first second => first.same second = true) left.children right.children := by
  cases left <;> cases right <;> try cases same
  case call.call target style receiver arguments optional type _ _ receiver' _ _ _ =>
    cases receiver <;> cases receiver' <;>
      simp only [Expr.same, Bool.and_eq_true, Bool.false_eq_true, and_false, false_and] at same
    · exact forall₂_of_sameAll same.1.1.2
    · exact .cons same.1.1.1.2 (forall₂_of_sameAll same.1.1.2)
  all_goals simp only [Expr.same, Bool.and_eq_true] at same
  case literal.literal => exact .nil
  case parameter.parameter => exact .nil
  case member.member => exact .cons same.1.1.1 .nil
  case construct.construct =>
    exact List.rel_append (forall₂_of_sameAll same.1.2) (forall₂_of_sameInitializers same.2)
  case conditional.conditional =>
    obtain ⟨⟨⟨conditions, trues⟩, falses⟩, -⟩ := same
    exact .cons conditions (.cons trues (.cons falses .nil))
  case coalesce.coalesce => exact .cons same.1.1 (.cons same.1.2 .nil)
  case binary.binary => exact .cons same.1.1.2 (.cons same.1.2 .nil)
  case raise.raise => exact .cons same.1 .nil
  case projection.projection => exact .cons same.1.1.1.1 (.cons same.1.1.2 .nil)
  case guarded.guarded => exact .cons same.1.1 (.cons same.1.2 .nil)

private theorem size_eq_of_same {left right : Expr} (same : left.same right = true) :
    left.size = right.size := by
  induction left using induction_on_children generalizing right with
  | step left inductionHypothesis =>
    have below : (left.children.flatMap nodes).length = (right.children.flatMap nodes).length := by
      have children := forall₂_children_of_same same
      generalize left.children = lefts, right.children = rights at children inductionHypothesis ⊢
      induction children with
      | nil => rfl
      | cons first _ rest =>
        rw [List.flatMap_cons, List.flatMap_cons, List.length_append, List.length_append,
          rest fun child listed => inductionHypothesis child (List.mem_cons_of_mem _ listed)]
        exact congrArg (· + _) (inductionHypothesis _ List.mem_cons_self first)
    unfold size
    rw [nodes_eq left, nodes_eq right, List.length_cons, List.length_cons, below]

/-! ## Receivers that are rebound -/

/-- A projection of the body binds a name of `old` anew around a subtree that reads like `old`. -/
def Rebinds (old body : Expr) : Prop :=
  ∃ source element transform materialize type,
    projection source element transform materialize type ∈ body.nodes ∧
    element ∈ old.freeNames ∧ ∃ place ∈ transform.nodes, place.same old = true

section Rebinding

variable {old : Expr}

private theorem Rebinds.of_mem_children {expr child : Expr} (listed : child ∈ expr.children) :
    Rebinds old child → Rebinds old expr := by
  rintro ⟨source, element, transform, materialize, type, member, rest⟩
  exact ⟨source, element, transform, materialize, type, mem_nodes_of_mem_children listed member,
    rest⟩

private theorem replace_eq_self (new : Expr) {expr : Expr}
    (absent : ∀ place ∈ expr.nodes, place.same old = false) : replace old new expr = expr := by
  induction expr using induction_on_children with
  | step expr inductionHypothesis =>
    rw [replace_eq, if_neg (Bool.eq_false_iff.1 (absent expr (mem_nodes_self expr)))]
    calc expr.mapChildren (replace old new) = expr.mapChildren id :=
          mapChildren_congr fun child listed => inductionHypothesis child listed
            fun place member => absent place (mem_nodes_of_mem_children listed member)
      _ = expr := mapChildren_id expr

/-- A tree with a subtree that reads like `old` changes if a literal is put in its place. -/
theorem replace_ne_self {value : Literal} {type : TypeRef} {expr : Expr}
    (mentions : old.freeNames ≠ [])
    (present : ∃ place ∈ expr.nodes, place.same old = true) :
    replace old (literal value type) expr ≠ expr := by
  induction expr using induction_on_children with
  | step expr inductionHypothesis =>
    rw [replace_eq]
    split
    next same =>
      rintro rfl
      cases old with
      | literal => exact mentions rfl
      | _ => cases same
    next different =>
      obtain ⟨place, member, same⟩ := present
      rw [nodes_eq] at member
      rcases List.mem_cons.1 member with isRoot | below
      · exact absurd (isRoot ▸ same) different
      · obtain ⟨child, listed, inChild⟩ := List.mem_flatMap.1 below
        intro unchanged
        have sameChildren := congrArg children unchanged
        rw [children_mapChildren] at sameChildren
        have kept : replace old (literal value type) child = child :=
          List.map_inj_left.1 (sameChildren.trans (List.map_id _).symm) child listed
        exact inductionHypothesis child listed ⟨place, inChild, same⟩ kept

/-- A subtree is rebound by the root or inside a child of the root. -/
theorem Rebinds.cases_root {expr : Expr} (rebinds : Rebinds old expr) :
    (∃ source element transform materialize type,
      expr = projection source element transform materialize type ∧ element ∈ old.freeNames ∧
        ∃ place ∈ transform.nodes, place.same old = true) ∨
    ∃ child ∈ expr.children, Rebinds old child := by
  obtain ⟨source, element, transform, materialize, type, member, rest⟩ := rebinds
  rw [nodes_eq] at member
  rcases List.mem_cons.1 member with isRoot | below
  · exact .inl ⟨source, element, transform, materialize, type, isRoot.symm, rest⟩
  · obtain ⟨child, listed, inChild⟩ := List.mem_flatMap.1 below
    exact .inr ⟨child, listed, source, element, transform, materialize, type, inChild, rest⟩

/-- A tree that rebinds a name of another one has a subtree that reads like it. -/
theorem Rebinds.present {expr : Expr} (rebinds : Rebinds old expr) :
    ∃ place ∈ expr.nodes, place.same old = true := by
  obtain ⟨source, element, transform, materialize, type, member, -, place, inTransform, same⟩ :=
    rebinds
  exact ⟨place, (nodes_sublist_of_mem_nodes member).subset (mem_nodes_of_mem_children
    (List.mem_cons_of_mem _ List.mem_cons_self) inTransform), same⟩

private theorem replace_eq_replaceFree (new : Expr) {body : Expr} (notRebound : ¬Rebinds old body) :
    replace old new body = replaceFree old new body := by
  induction body using induction_on_scope with
  | parameter name type => rfl
  | projection source element transform materialize type sourceHypothesis transformHypothesis =>
    rw [replace_eq]
    split
    next same => rw [replaceFree_of_same same]
    next different =>
      rw [replaceFree_projection (Bool.eq_false_iff.2 different), mapChildren, sourceHypothesis
        fun inSource => notRebound (inSource.of_mem_children List.mem_cons_self)]
      split
      next rebound =>
        rw [replace_eq_self]
        intro place member
        by_contra same
        exact notRebound ⟨source, element, transform, materialize, type, mem_nodes_self _, rebound,
          place, member, Bool.not_eq_false _ ▸ same⟩
      next visible =>
        rw [transformHypothesis transform rfl fun inTransform => notRebound
          (inTransform.of_mem_children (List.mem_cons_of_mem _ List.mem_cons_self))]
  | neutral expr neutral inductionHypothesis =>
    rw [replace_eq]
    split
    next same => rw [replaceFree_of_same same]
    next different =>
      rw [replaceFree_of_neutral neutral (Bool.eq_false_iff.2 different)]
      exact mapChildren_congr fun child listed => inductionHypothesis child listed
        fun inChild => notRebound (inChild.of_mem_children listed)

/-- The tree around a rebound subtree is larger than the receiver, so it is not itself replaced. -/
theorem Rebinds.not_same {body : Expr} (rebinds : Rebinds old body) : body.same old = false := by
  obtain ⟨source, element, transform, materialize, type, member, -, place, inTransform, same⟩ :=
    rebinds
  have placeSize : place.size ≤ transform.size :=
    (nodes_sublist_of_mem_nodes inTransform).length_le
  have projectionSize : (projection source element transform materialize type).size ≤ body.size :=
    (nodes_sublist_of_mem_nodes member).length_le
  have transformSize :
      transform.size < (projection source element transform materialize type).size :=
    size_lt_of_mem_children (List.mem_cons_of_mem _ List.mem_cons_self)
  rw [Bool.eq_false_iff]
  intro bodySame
  have oldSize := size_eq_of_same same
  have bodySize := size_eq_of_same bodySame
  omega

private theorem replace_ne_replaceFree {value : Literal} {type : TypeRef} {body : Expr}
    (rebinds : Rebinds old body) :
    replace old (literal value type) body ≠ replaceFree old (literal value type) body := by
  have mentions : old.freeNames ≠ [] := by
    obtain ⟨_, element, _, _, _, -, rebound, -⟩ := rebinds
    exact List.ne_nil_of_mem rebound
  induction body using induction_on_scope with
  | parameter name type =>
    obtain ⟨source, element, transform, materialize, type, member, -⟩ := rebinds
    cases List.mem_singleton.1 member
  | projection source element transform materialize type sourceHypothesis transformHypothesis =>
    have different := rebinds.not_same
    rw [replace_eq, if_neg (Bool.eq_false_iff.1 different), replaceFree_projection different,
      mapChildren]
    intro same
    injection same with sources _ transforms
    have rebound : (element ∈ old.freeNames ∧ ∃ place ∈ transform.nodes, place.same old = true) ∨
        Rebinds old transform := by
      rcases rebinds.cases_root with ⟨_, _, _, _, _, isRoot, rest⟩ | ⟨child, listed, inChild⟩
      · cases isRoot
        exact .inl rest
      · rcases List.mem_cons.1 listed with isSource | isTransform
        · exact absurd sources (sourceHypothesis (isSource ▸ inChild))
        · exact .inr (List.mem_singleton.1 isTransform ▸ inChild)
    by_cases hidden : element ∈ old.freeNames
    · rw [if_pos hidden] at transforms
      exact replace_ne_self mentions (rebound.elim And.right Rebinds.present) transforms
    · rw [if_neg hidden] at transforms
      exact transformHypothesis transform rfl
        (rebound.resolve_left fun here => hidden here.1) transforms
  | neutral expr neutral inductionHypothesis =>
    have different := rebinds.not_same
    rw [replace_eq, if_neg (Bool.eq_false_iff.1 different),
      replaceFree_of_neutral neutral different]
    intro same
    have sameChildren := congrArg children same
    rw [children_mapChildren, children_mapChildren, List.map_inj_left] at sameChildren
    rcases rebinds.cases_root with ⟨_, _, _, _, _, rfl, -⟩ | ⟨child, listed, inChild⟩
    · cases neutral
    · exact inductionHypothesis child listed inChild (sameChildren child listed)

end Rebinding

/-! ## Elements of an expanded body -/

/-- The elements of a body in which arguments have been put in place are renamed apart from the
names of an argument, unless they come with an argument or hide its parameter. -/
theorem elements_substitute_apart {parameter : String} {argument : Expr} {bindings : Bindings}
    {body : Expr} (bound : bindings.lookup parameter = some argument)
    (visible : parameter ∉ body.elements)
    (apart : ∀ name actual, bindings.lookup name = some actual →
      ∀ element ∈ actual.elements, element ∉ argument.freeNames) :
    ∀ element ∈ (body.substitute bindings).elements, element ∉ argument.freeNames := by
  induction body using induction_on_scope generalizing bindings with
  | parameter name type =>
    rw [substitute]
    cases look : bindings.lookup name with
    | none =>
      intro element impossible
      cases impossible
    | some actual => exact apart name actual look
  | projection source element transform materialize type sourceHypothesis transformHypothesis =>
    rw [elements_projection, List.mem_cons, List.mem_append, not_or, not_or] at visible
    obtain ⟨notElement, notInSource, notInTransform⟩ := visible
    have stillBound : (bindings.erase element).lookup parameter = some argument := by
      rw [Bindings.lookup_erase_of_ne notElement, bound]
    have stillApart : ∀ name actual, (bindings.erase element).lookup name = some actual →
        ∀ element ∈ actual.elements, element ∉ argument.freeNames := by
      intro name actual look
      by_cases erased : name = element
      · rw [erased, Bindings.lookup_erase_self] at look
        cases look
      · rw [Bindings.lookup_erase_of_ne erased] at look
        exact apart name actual look
    rw [substitute, elements_projection]
    intro other listed
    rcases List.mem_cons.1 listed with isElement | below
    · intro free
      exact avoidCapture_not_mem (bindings.erase element) element transform
        (isElement ▸ Bindings.mem_freeNames_of_lookup stillBound free)
    · rcases List.mem_append.1 below with inSource | inTransform
      · exact sourceHypothesis bound notInSource apart other inSource
      · refine transformHypothesis _ (size_avoidCapture ..) stillBound ?_ stillApart other
          inTransform
        rwa [elements_avoidCapture]
  | neutral expr neutral inductionHypothesis =>
    rw [substitute_of_neutral neutral,
      elements_of_neutral ((isNeutral_mapChildren _ expr).trans neutral), children_mapChildren]
    intro element listed
    obtain ⟨changed, isChanged, inChanged⟩ := List.mem_flatMap.1 listed
    obtain ⟨child, isChild, rfl⟩ := List.mem_map.1 isChanged
    refine inductionHypothesis child isChild bound (fun hides => visible ?_) apart element inChanged
    rw [elements_of_neutral neutral]
    exact List.mem_flatMap.2 ⟨child, isChild, hides⟩

private theorem not_rebinds_of_apart {old body : Expr}
    (apart : ∀ element ∈ body.elements, element ∉ old.freeNames) : ¬Rebinds old body := by
  rintro ⟨source, element, transform, materialize, type, member, rebound, -⟩
  exact apart element (List.mem_filterMap.2 ⟨_, member, rfl⟩) rebound

end Expr

namespace Inliner

/-- The guard of an optional call rebinds no name of its receiver, provided that the callable does
not hide its first parameter and the actual arguments bind no name of the receiver. -/
theorem expandCall_not_rebinds {inliner : Inliner} {templates : CallableId → Option Template}
    {target : CallableId} {style : CallStyle} {receiver : Expr} {arguments : List Expr}
    {template : Template} {parameter : String} {others : List String} (type : TypeRef)
    (eligible : inliner.callee? templates target style (receiver :: arguments) true =
      some template)
    (parameters : template.parameters = parameter :: others) (unique : parameter ∉ others)
    (visible : parameter ∉ template.body.get.elements)
    (apart : ∀ actual ∈ receiver :: arguments, ∀ element ∈ actual.elements,
      element ∉ receiver.freeNames) :
    ∃ body, inliner.expandCall templates target style (some receiver) arguments true type =
        .guarded receiver body type ∧ ¬receiver.Rebinds body := by
  refine ⟨template.body.get.substitute
    (Bindings.ofLists template.parameters (receiver :: arguments)), ?_, ?_⟩
  · simp only [expandCall, Option.toList_some, List.singleton_append, eligible]
  · rw [parameters]
    refine Expr.not_rebinds_of_apart (Expr.elements_substitute_apart
      (Bindings.lookup_ofLists_cons unique receiver arguments) visible ?_)
    intro name actual look
    exact apart actual (Bindings.mem_of_lookup_ofLists look)

/-- Resolving a guard puts something in place of those subtrees of its body only that denote the
receiver of the guard, exactly when no projection of the body rebinds a name of the receiver around
a subtree that reads like it. The guard of an optional call has such a body if the callable does
not hide its first parameter and the actual arguments bind no name of the receiver. -/
theorem guard_resolution_hygienic_iff (receiver body : Expr) :
    ((∀ new : Expr, new.freeNames ⊆ receiver.freeNames →
        receiver.replace new body = receiver.replaceFree new body) ↔ ¬receiver.Rebinds body) ∧
    ∀ (inliner : Inliner) (templates : CallableId → Option Template) (target : CallableId)
      (style : CallStyle) (arguments : List Expr) (type : TypeRef) (template : Template)
      (parameter : String) (others : List String),
      inliner.callee? templates target style (receiver :: arguments) true = some template →
      template.parameters = parameter :: others → parameter ∉ others →
      parameter ∉ template.body.get.elements →
      (∀ actual ∈ receiver :: arguments, ∀ element ∈ actual.elements,
        element ∉ receiver.freeNames) →
      ∃ body, inliner.expandCall templates target style (some receiver) arguments true type =
          .guarded receiver body type ∧
        ∀ new : Expr, new.freeNames ⊆ receiver.freeNames →
          receiver.replace new body = receiver.replaceFree new body := by
  constructor
  · constructor
    · intro agree rebinds
      exact Expr.replace_ne_replaceFree rebinds
        (agree (.literal .null (.reference "object")) (List.nil_subset _))
    · intro notRebound new _
      exact Expr.replace_eq_replaceFree new notRebound
  · intro inliner templates target style arguments type template parameter others eligible
      parameters unique visible apart
    obtain ⟨body, isGuard, notRebound⟩ :=
      expandCall_not_rebinds type eligible parameters unique visible apart
    exact ⟨body, isGuard, fun new _ => Expr.replace_eq_replaceFree new notRebound⟩

end Inliner

namespace ShadowedReceiver

open TypeRef (string strings)

def node : TypeRef := .reference "Node"

def nodes : TypeRef := .collection "List<Node>"

/-- `Names(x) => x.Children.Select(element => element?.Parent?.Name)` -/
def names (element : String) : Callable where
  id := { scope := "M", name := "Names", signature := "Node" }
  parameters := [{ name := "x", type := node }]
  body := .projection (.member (.parameter "x" node) "Children" false nodes) element
    (.member (.member (.parameter element node) "Parent" true node) "Name" true string) none strings

def inliner (element : String) : Inliner :=
  (Callables.add ∅ (names element)).inliner .expand

/-- `x?.Parent` -/
def parent (optional : Bool) : Expr := .member (.parameter "x" node) "Parent" optional node

/-- `x?.Parent?.Names()` -/
def call : Expr :=
  .call { scope := "M", name := "Names", signature := "Node" } .extension (some (parent true)) []
    true strings

/-- With an element of its own, the callable can be expanded for `x?.Parent`. -/
theorem guard_on_parent_is_hygienic :
    ∃ body, (inliner "c").expandCall
        (fun _ => some ((names "c").template (Thunk.pure (names "c").body))) (names "c").id
        .extension (some (parent true)) [] true strings = .guarded (parent true) body strings ∧
      ∀ new : Expr, new.freeNames ⊆ (parent true).freeNames →
        (parent true).replace new body = (parent true).replaceFree new body := by
  apply (Inliner.guard_resolution_hygienic_iff (parent true) (names "c").body).2 (inliner "c") _
    (names "c").id .extension [] strings ((names "c").template (Thunk.pure (names "c").body)) "x" []
    rfl rfl
  · decide
  · decide
  · decide

/-- The parameter of the callable is hidden in the transform, so its projection keeps the element
that reads like the parameter of the caller. -/
def shadowed : Expr :=
  .projection (.member (parent true) "Children" false nodes) "x"
    (.member (parent true) "Name" true string) none strings

private theorem substitute_names :
    (names "x").body.substitute (.ofLists ["x"] [parent true]) = shadowed := by
  have unchanged : Expr.avoidCapture (Bindings.erase (.ofLists ["x"] [parent true]) "x") "x"
      (.member (parent true) "Name" true string) =
        ("x", .member (parent true) "Name" true string) := rfl
  change Expr.substitute _ (.projection _ "x" (.member (parent true) "Name" true string) _ _) = _
  rw [Expr.substitute, unchanged]
  simp only [Expr.substitute, parent]
  rfl

private theorem inline_call :
    (inliner "x").inline call = .guarded (parent true) shadowed strings := by
  rw [← substitute_names]
  rfl

/-- `x?.Parent?.Names()` is expanded to a guard on `x?.Parent` around
`x?.Parent.Children.Select(x => x?.Parent?.Name)`. The `x?.Parent` of the transform is the parent of
the element. It is replaced like the receiver, and the element loses its test for null. -/
theorem element_loses_its_test :
    (parent true).replace (parent false) shadowed ≠
      (parent true).replaceFree (parent false) shadowed ∧
    ((inliner "x").inline call).resolveLinks .expand .disabled =
      .testedAccess true strings (.parameter "x" node) (.testedAccess true strings (parent false)
        (.projection (.member (parent false) "Children" false nodes) "x"
          (.testedAccess true string (parent false) (.member (parent false) "Name" false string))
          none strings)) := by
  constructor
  · intro same
    injection same with _ _ transforms
    cases transforms
  · rw [inline_call]
    rfl

end ShadowedReceiver

end MappingForms
