import MappingForms.Expr.Substitution
import MappingForms.Proofs.Expr.Children
import Mathlib.Data.Finset.Card
import Mathlib.Data.List.Nodup
import Mathlib.Data.List.Perm.Subperm

/-!
Contract: the free names of expressions and what renaming and substitution do to them.

Owns: nodes that neither are nor bind a parameter, induction that treats all of these alike,
expressions whose free names are known, the choice of names that are not in use, and the look-up
of bindings.

Parameters and projections are the only nodes that names matter to. Everything else is a list of
children as far as scopes are concerned, so a law about names has three cases.
-/

set_option autoImplicit false

namespace MappingForms

namespace Expr

/-! ## Nodes that names do not matter to -/

/-- Whether a node neither is a parameter nor binds one. -/
def isNeutral : Expr → Bool
  | parameter .. => false
  | projection .. => false
  | _ => true

theorem isNeutral_mapChildren (change : Expr → Expr) (expr : Expr) :
    (expr.mapChildren change).isNeutral = expr.isNeutral := by
  cases expr <;> rfl

/-- Induction with one case for all neutral nodes. A transform may be renamed before it is
entered, which keeps its size. -/
theorem induction_on_scope {motive : Expr → Prop}
    (parameter : ∀ name type, motive (.parameter name type))
    (projection : ∀ source element transform materialize type, motive source →
      (∀ renamed, renamed.size = transform.size → motive renamed) →
      motive (.projection source element transform materialize type))
    (neutral : ∀ expr, expr.isNeutral = true → (∀ child ∈ expr.children, motive child) →
      motive expr)
    (expr : Expr) : motive expr := by
  have bounded : ∀ bound expr, expr.size < bound → motive expr := by
    intro bound
    induction bound with
    | zero => intro expr impossible; omega
    | succ bound inductionHypothesis =>
      intro expr within
      have below : ∀ child ∈ expr.children, child.size < bound := by
        intro child listed
        have smaller := size_lt_of_mem_children listed
        omega
      cases expr with
      | parameter name type => exact parameter name type
      | projection source element transform materialize type =>
        apply projection
        · exact inductionHypothesis source (below source List.mem_cons_self)
        · intro renamed sameSize
          have transformBelow :=
            below transform (List.mem_cons_of_mem _ List.mem_cons_self)
          exact inductionHypothesis renamed (by omega)
      | _ =>
        apply neutral _ rfl
        intro child listed
        exact inductionHypothesis child (below child listed)
  exact bounded _ expr (Nat.lt_succ_self _)

private theorem freeNamesOfAll_eq_flatMap (exprs : List Expr) :
    freeNamesOfAll exprs = exprs.flatMap freeNames := by
  induction exprs with
  | nil => rfl
  | cons first rest inductionHypothesis =>
    rw [freeNamesOfAll, inductionHypothesis, List.flatMap_cons]

private theorem freeNamesOfInitializers_eq_flatMap (initializers : List Initializer) :
    freeNamesOfInitializers initializers = (initializers.map (·.value)).flatMap freeNames := by
  induction initializers with
  | nil => rfl
  | cons first rest inductionHypothesis =>
    obtain ⟨name, declared, value⟩ := first
    rw [freeNamesOfInitializers, inductionHypothesis, List.map_cons, List.flatMap_cons]
    rfl

/-- The free names of a neutral node are those of its children. -/
theorem freeNames_of_neutral {expr : Expr} (neutral : expr.isNeutral = true) :
    expr.freeNames = expr.children.flatMap freeNames := by
  cases expr with
  | parameter | projection => cases neutral
  | call target style receiver arguments optional type =>
    cases receiver <;> simp [freeNames, children, freeNamesOfAll_eq_flatMap]
  | _ =>
    simp [freeNames, children, freeNamesOfAll_eq_flatMap, freeNamesOfInitializers_eq_flatMap]

/-- A projection hides its element in the transform, and nowhere else. -/
theorem mem_freeNames_projection {source transform : Expr} {element name : String}
    {materialize : Option String} {type : TypeRef} :
    name ∈ (projection source element transform materialize type).freeNames ↔
      name ∈ source.freeNames ∨ (name ∈ transform.freeNames ∧ name ≠ element) := by
  simp [freeNames]

/-! ## Expressions whose free names are known -/

/-- Every free name of the expression is known. -/
def ScopedTo (known : String → Prop) (expr : Expr) : Prop :=
  ∀ name ∈ expr.freeNames, known name

theorem ScopedTo.mono {known wider : String → Prop} {expr : Expr}
    (inScope : ScopedTo known expr) (included : ∀ name, known name → wider name) :
    ScopedTo wider expr :=
  fun name free => included name (inScope name free)

private theorem scopedTo_parameter {known : String → Prop} {name : String} {type : TypeRef} :
    ScopedTo known (parameter name type) ↔ known name := by
  simp [ScopedTo, freeNames]

/-- A neutral node is in scope if its children are. -/
theorem scopedTo_of_neutral {known : String → Prop} {expr : Expr}
    (neutral : expr.isNeutral = true) :
    ScopedTo known expr ↔ ∀ child ∈ expr.children, ScopedTo known child := by
  unfold ScopedTo
  rw [freeNames_of_neutral neutral]
  constructor
  · intro inScope child listed name free
    exact inScope name (List.mem_flatMap.2 ⟨child, listed, free⟩)
  · intro inScope name free
    obtain ⟨child, listed, inChild⟩ := List.mem_flatMap.1 free
    exact inScope child listed name inChild

/-- A projection is in scope if its source is, and its transform is with the element known as
well. -/
theorem scopedTo_projection {known : String → Prop} {source transform : Expr} {element : String}
    {materialize : Option String} {type : TypeRef} :
    ScopedTo known (projection source element transform materialize type) ↔
      ScopedTo known source ∧ ScopedTo (fun name => name = element ∨ known name) transform := by
  unfold ScopedTo
  constructor
  · intro inScope
    refine ⟨fun name free => inScope name (mem_freeNames_projection.2 (.inl free)), ?_⟩
    intro name free
    by_cases bound : name = element
    · exact .inl bound
    · exact .inr (inScope name (mem_freeNames_projection.2 (.inr ⟨free, bound⟩)))
  · rintro ⟨sourceScoped, transformScoped⟩ name free
    rcases mem_freeNames_projection.1 free with inSource | ⟨inTransform, notBound⟩
    · exact sourceScoped name inSource
    · exact (transformScoped name inTransform).resolve_left notBound

/-- A change that keeps the children of a node in scope, whatever else gets known on the way to
them, keeps the node in scope. -/
theorem ScopedTo.mapChildren {known : String → Prop} {change : Expr → Expr} {expr : Expr}
    (inScope : ScopedTo known expr)
    (keeps : ∀ (wider : String → Prop), (∀ name, known name → wider name) →
      ∀ child ∈ expr.children, ScopedTo wider child → ScopedTo wider (change child)) :
    ScopedTo known (expr.mapChildren change) := by
  by_cases neutral : expr.isNeutral = true
  · rw [scopedTo_of_neutral neutral] at inScope
    rw [scopedTo_of_neutral ((isNeutral_mapChildren change expr).trans neutral),
      children_mapChildren]
    intro changed listed
    obtain ⟨child, isChild, rfl⟩ := List.mem_map.1 listed
    exact keeps known (fun _ => id) child isChild (inScope child isChild)
  · cases expr with
    | parameter name type => exact inScope
    | projection source element transform materialize type =>
      obtain ⟨sourceScoped, transformScoped⟩ := scopedTo_projection.1 inScope
      refine scopedTo_projection.2 ⟨?_, ?_⟩
      · exact keeps known (fun _ => id) source List.mem_cons_self sourceScoped
      · exact keeps _ (fun _ => .inr) transform (List.mem_cons_of_mem _ List.mem_cons_self)
          transformScoped
    | _ => exact absurd rfl neutral

/-! ## Names in use -/

theorem mem_names_of_mem_children {expr child : Expr} {name : String}
    (listed : child ∈ expr.children) (used : name ∈ child.names) : name ∈ expr.names := by
  obtain ⟨node, member, isName⟩ := List.mem_filterMap.1 used
  exact List.mem_filterMap.2 ⟨node, mem_nodes_of_mem_children listed member, isName⟩

theorem element_mem_names (source transform : Expr) (element : String)
    (materialize : Option String) (type : TypeRef) :
    element ∈ (projection source element transform materialize type).names :=
  List.mem_filterMap.2 ⟨_, mem_nodes_self _, rfl⟩

/-- A name that is free occurs. -/
theorem mem_names_of_mem_freeNames {expr : Expr} {name : String} (free : name ∈ expr.freeNames) :
    name ∈ expr.names := by
  induction expr using induction_on_scope with
  | parameter other type =>
    rw [freeNames, List.mem_singleton] at free
    exact List.mem_filterMap.2 ⟨_, mem_nodes_self _, congrArg some free.symm⟩
  | projection source element transform materialize type sourceHypothesis transformHypothesis =>
    rcases mem_freeNames_projection.1 free with inSource | ⟨inTransform, -⟩
    · exact mem_names_of_mem_children List.mem_cons_self (sourceHypothesis inSource)
    · exact mem_names_of_mem_children (List.mem_cons_of_mem _ List.mem_cons_self)
        (transformHypothesis transform rfl inTransform)
  | neutral expr neutral inductionHypothesis =>
    rw [freeNames_of_neutral neutral] at free
    obtain ⟨child, listed, inChild⟩ := List.mem_flatMap.1 free
    exact mem_names_of_mem_children listed (inductionHypothesis child listed inChild)

def element? : Expr → Option String
  | projection _ element _ _ _ => some element
  | _ => none

/-- The names that the projections of a tree bind. -/
def elements (expr : Expr) : List String := expr.nodes.filterMap element?

private theorem elements_eq (expr : Expr) :
    expr.elements = expr.element?.toList ++ expr.children.flatMap elements := by
  unfold elements
  rw [nodes_eq, List.filterMap_cons, List.filterMap_flatMap]
  cases expr.element? <;> rfl

theorem elements_of_neutral {expr : Expr} (neutral : expr.isNeutral = true) :
    expr.elements = expr.children.flatMap elements := by
  rw [elements_eq]
  cases expr with
  | parameter | projection => cases neutral
  | _ => rfl

theorem elements_projection (source transform : Expr) (element : String)
    (materialize : Option String) (type : TypeRef) :
    (projection source element transform materialize type).elements =
      element :: (source.elements ++ transform.elements) := by
  rw [elements_eq]
  simp [element?, children]

/-! ## Renaming -/

private theorem renameAll_eq_map (old new : String) (exprs : List Expr) :
    renameAll old new exprs = exprs.map (rename old new) := by
  induction exprs with
  | nil => rfl
  | cons first rest inductionHypothesis => rw [renameAll, inductionHypothesis, List.map_cons]

private theorem renameInitializers_eq_map (old new : String) (initializers : List Initializer) :
    renameInitializers old new initializers =
      initializers.map fun init => ⟨init.member, init.memberType, init.value.rename old new⟩ := by
  induction initializers with
  | nil => rfl
  | cons first rest inductionHypothesis =>
    obtain ⟨name, declared, value⟩ := first
    rw [renameInitializers, inductionHypothesis, List.map_cons]
    rfl

/-- Renaming goes on with the children of a neutral node. -/
theorem rename_of_neutral {expr : Expr} (neutral : expr.isNeutral = true) (old new : String) :
    expr.rename old new = expr.mapChildren (rename old new) := by
  cases expr with
  | parameter | projection => cases neutral
  | call target style receiver arguments optional type =>
    cases receiver <;> simp [rename, mapChildren, renameAll_eq_map]
  | _ => simp [rename, mapChildren, renameAll_eq_map, renameInitializers_eq_map]

/-- Renaming leaves no free occurrence of the old name, and puts the new one in its place. -/
theorem mem_freeNames_rename {expr : Expr} {old new name : String}
    (free : name ∈ (expr.rename old new).freeNames) :
    (name = new ∧ old ∈ expr.freeNames) ∨ (name ∈ expr.freeNames ∧ name ≠ old) := by
  induction expr using induction_on_scope with
  | parameter other type =>
    rw [rename, freeNames, List.mem_singleton] at free
    rw [freeNames, List.mem_singleton, List.mem_singleton]
    by_cases renamed : other = old
    · rw [if_pos renamed] at free
      exact .inl ⟨free, renamed.symm⟩
    · rw [if_neg renamed] at free
      exact .inr ⟨free, free ▸ renamed⟩
  | projection source element transform materialize type sourceHypothesis transformHypothesis =>
    rw [rename, mem_freeNames_projection] at free
    simp only [mem_freeNames_projection]
    rcases free with inSource | ⟨inTransform, notBound⟩
    · exact (sourceHypothesis inSource).imp (And.imp_right .inl) (And.imp_left .inl)
    · split at inTransform
      next shadowed => exact .inr ⟨.inr ⟨inTransform, notBound⟩, shadowed ▸ notBound⟩
      next visible =>
        refine (transformHypothesis transform rfl inTransform).imp ?_ ?_
        · exact And.imp_right fun isFree => .inr ⟨isFree, Ne.symm visible⟩
        · exact And.imp_left fun isFree => .inr ⟨isFree, notBound⟩
  | neutral expr neutral inductionHypothesis =>
    rw [rename_of_neutral neutral,
      freeNames_of_neutral ((isNeutral_mapChildren _ expr).trans neutral),
      children_mapChildren] at free
    obtain ⟨renamed, isRenamed, inRenamed⟩ := List.mem_flatMap.1 free
    obtain ⟨child, listed, rfl⟩ := List.mem_map.1 isRenamed
    have below {other : String} (isFree : other ∈ child.freeNames) : other ∈ expr.freeNames := by
      rw [freeNames_of_neutral neutral]
      exact List.mem_flatMap.2 ⟨child, listed, isFree⟩
    exact (inductionHypothesis child listed inRenamed).imp
      (And.imp_right below) (And.imp_left below)

/-- Renaming a free name leaves the elements alone. -/
theorem elements_rename (old new : String) (expr : Expr) :
    (expr.rename old new).elements = expr.elements := by
  induction expr using induction_on_scope with
  | parameter name type => rfl
  | projection source element transform materialize type sourceHypothesis transformHypothesis =>
    rw [rename, elements_projection, elements_projection, sourceHypothesis]
    split
    · rfl
    · rw [transformHypothesis transform rfl]
  | neutral expr neutral inductionHypothesis =>
    rw [rename_of_neutral neutral, elements_of_neutral neutral,
      elements_of_neutral ((isNeutral_mapChildren _ expr).trans neutral), children_mapChildren,
      List.flatMap_map]
    exact List.flatMap_congr inductionHypothesis

end Expr

/-! ## Fresh names -/

private theorem numberedName_injective (base : String) :
    Function.Injective (numberedName base) := by
  intro left right same
  have digits := congrArg String.toList same
  simp only [numberedName, String.toList_append, List.append_cancel_left_eq] at digits
  have values := congrArg (Nat.ofDigitChars 10 · 0) digits
  simpa using values

/-- Numbered names are distinct, so no more of them are in use than there are names in use. -/
theorem count_le_of_used {base : String} {used : List String} {count : Nat}
    (allUsed : ∀ number < count, numberedName base (number + 1) ∈ used) :
    count ≤ used.toFinset.card := by
  have fewer : (Finset.range count).card ≤ used.toFinset.card := by
    apply Finset.card_le_card_of_injOn fun number => numberedName base (number + 1)
    · intro number within
      exact List.mem_toFinset.2 (allUsed number (Finset.mem_range.1 within))
    · intro left _ right _ same
      exact Nat.succ.inj (numberedName_injective base same)
  rwa [Finset.card_range] at fewer

/-- The search takes the first numbered name that is not to be avoided. -/
theorem freshName_first (base : String) (avoid : List String) :
    ∃ number, freshName base avoid = numberedName base (number + 1) ∧
      numberedName base (number + 1) ∉ avoid ∧
      ∀ earlier < number, numberedName base (earlier + 1) ∈ avoid := by
  simp only [freshName, List.find?_map]
  cases found : (List.range (avoid.length + 1)).find?
      ((fun candidate => !avoid.contains candidate) ∘ fun index =>
        numberedName base (index + 1)) with
  | none =>
    -- All candidates would be in use, and they are one too many for that.
    have allUsed : ∀ number < avoid.length + 1, numberedName base (number + 1) ∈ avoid := by
      intro number within
      simpa using List.find?_eq_none.1 found number (List.mem_range.2 within)
    have tooMany := count_le_of_used allUsed
    have atMost := List.toFinset_card_le avoid
    omega
  | some number =>
    obtain ⟨unused, -, earlierUsed⟩ := List.find?_range_eq_some.1 found
    refine ⟨number, rfl, by simpa using unused, ?_⟩
    intro earlier lower
    simpa using earlierUsed earlier lower

/-! ## Bindings -/

namespace Bindings

theorem lookup_erase_self (bindings : Bindings) (name : String) :
    (bindings.erase name).lookup name = none := by
  rw [List.lookup_eq_none_iff]
  intro binding listed
  have kept : binding.1 ≠ name := by simpa using (List.mem_filter.1 listed).2
  exact bne_iff_ne.2 kept.symm

theorem lookup_erase_of_ne {bindings : Bindings} {name other : String} (different : other ≠ name) :
    (bindings.erase name).lookup other = bindings.lookup other := by
  induction bindings with
  | nil => rfl
  | cons first rest inductionHypothesis =>
    unfold erase at inductionHypothesis ⊢
    by_cases removed : first.1 = name
    · have skipped : (other == first.1) = false := by simpa [removed] using different
      rw [List.filter_cons_of_neg (by simpa using removed), inductionHypothesis,
        List.lookup_cons, skipped]
    · rw [List.filter_cons_of_pos (by simpa using removed), List.lookup_cons, List.lookup_cons,
        inductionHypothesis]

/-- The free names of a bound expression are those of the bindings. -/
theorem mem_freeNames_of_lookup {bindings : Bindings} {bound name : String} {argument : Expr}
    (look : bindings.lookup bound = some argument) (free : name ∈ argument.freeNames) :
    name ∈ bindings.freeNames := by
  obtain ⟨before, after, split, -⟩ := List.lookup_eq_some_iff.1 look
  refine List.mem_flatMap.2 ⟨(bound, argument), ?_, free⟩
  rw [split]
  simp

theorem freeNames_erase_subset (bindings : Bindings) (name : String) :
    (bindings.erase name).freeNames ⊆ bindings.freeNames := by
  intro other free
  obtain ⟨binding, listed, inArgument⟩ := List.mem_flatMap.1 free
  exact List.mem_flatMap.2 ⟨binding, (List.mem_filter.1 listed).1, inArgument⟩

private theorem lookup_bind (bindings : Bindings) (bound name : String) (argument : Expr) :
    (bindings.bind bound argument).lookup name =
      if name = bound then some argument else bindings.lookup name := by
  unfold bind
  rw [List.lookup_cons]
  by_cases same : name = bound
  · rw [if_pos same, beq_iff_eq.2 same]
  · rw [if_neg same, beq_eq_false_iff_ne.2 same, lookup_erase_of_ne same]

private theorem lookup_foldl_bind (pairs : List (String × Expr)) (bindings : Bindings)
    (name : String) :
    (pairs.foldl (fun bindings pair => bindings.bind pair.1 pair.2) bindings).lookup name =
      (pairs.reverse.lookup name).or (bindings.lookup name) := by
  induction pairs generalizing bindings with
  | nil => rfl
  | cons first rest inductionHypothesis =>
    rw [List.foldl_cons, inductionHypothesis, lookup_bind, List.reverse_cons, List.lookup_append,
      List.lookup_cons, List.lookup_nil, Option.or_assoc]
    by_cases same : name = first.1
    · rw [if_pos same, beq_iff_eq.2 same]
      rfl
    · rw [if_neg same, beq_eq_false_iff_ne.2 same, Option.none_or]

/-- Of a repeated name the last expression is the one that is found. -/
theorem lookup_ofLists (names : List String) (exprs : List Expr) (name : String) :
    (ofLists names exprs).lookup name = (names.zip exprs).reverse.lookup name := by
  rw [ofLists, lookup_foldl_bind, List.lookup_nil, Option.or_none]

/-- Each of several names is bound if there are as many expressions as names. -/
theorem exists_lookup_ofLists {names : List String} {exprs : List Expr} {name : String}
    (sameLength : exprs.length = names.length) (listed : name ∈ names) :
    ∃ expr, (ofLists names exprs).lookup name = some expr := by
  rw [lookup_ofLists, ← Option.isSome_iff_exists, Option.isSome_iff_ne_none, Ne,
    List.lookup_eq_none_iff]
  intro absent
  rw [← List.map_fst_zip (Nat.le_of_eq sameLength.symm)] at listed
  obtain ⟨pair, paired, rfl⟩ := List.mem_map.1 listed
  simpa using absent pair (List.mem_reverse.2 paired)

theorem mem_of_lookup_ofLists {names : List String} {exprs : List Expr} {name : String}
    {expr : Expr} (look : (ofLists names exprs).lookup name = some expr) : expr ∈ exprs := by
  rw [lookup_ofLists] at look
  obtain ⟨before, after, split, -⟩ := List.lookup_eq_some_iff.1 look
  have paired : (name, expr) ∈ (names.zip exprs).reverse := by simp [split]
  exact (List.of_mem_zip (List.mem_reverse.1 paired)).2

theorem lookup_ofLists_cons {first : String} {others : List String} (unique : first ∉ others)
    (argument : Expr) (arguments : List Expr) :
    (ofLists (first :: others) (argument :: arguments)).lookup first = some argument := by
  have notLater : (others.zip arguments).reverse.lookup first = none := by
    rw [List.lookup_eq_none_iff]
    intro pair listed
    refine bne_iff_ne.2 fun isFirst => unique ?_
    exact isFirst ▸ (List.of_mem_zip (List.mem_reverse.1 listed)).1
  rw [lookup_ofLists, List.zip_cons_cons, List.reverse_cons, List.lookup_append, notLater,
    Option.none_or, List.lookup_cons_self]

private theorem mem_foldl_bind {pairs : List (String × Expr)} {bindings : Bindings}
    {binding : String × Expr}
    (listed : binding ∈
      pairs.foldl (fun bindings pair => bindings.bind pair.1 pair.2) bindings) :
    binding ∈ pairs ∨ binding ∈ bindings := by
  induction pairs generalizing bindings with
  | nil => exact .inr listed
  | cons first rest inductionHypothesis =>
    rcases inductionHypothesis listed with inRest | inFirst
    · exact .inl (List.mem_cons_of_mem _ inRest)
    · rcases List.mem_cons.1 inFirst with same | earlier
      · exact .inl (same ▸ List.mem_cons_self)
      · exact .inr (List.mem_filter.1 earlier).1

theorem mem_of_mem_ofLists {names : List String} {exprs : List Expr} {binding : String × Expr}
    (listed : binding ∈ ofLists names exprs) : binding.2 ∈ exprs := by
  rcases mem_foldl_bind listed with paired | impossible
  · exact (List.of_mem_zip paired).2
  · cases impossible

/-- What is free in bindings is free in one of the bound expressions. -/
theorem mem_freeNames_ofLists {names : List String} {exprs : List Expr} {name : String}
    (free : name ∈ (ofLists names exprs).freeNames) : ∃ expr ∈ exprs, name ∈ expr.freeNames := by
  obtain ⟨binding, listed, inExpr⟩ := List.mem_flatMap.1 free
  exact ⟨binding.2, mem_of_mem_ofLists listed, inExpr⟩

end Bindings

namespace Expr

/-! ## Substitution -/

theorem substituteAll_eq_map (bindings : Bindings) (exprs : List Expr) :
    substituteAll bindings exprs = exprs.map (substitute bindings) := by
  induction exprs with
  | nil => rw [substituteAll, List.map_nil]
  | cons first rest inductionHypothesis =>
    rw [substituteAll, inductionHypothesis, List.map_cons]

private theorem substituteInitializers_eq_map (bindings : Bindings)
    (initializers : List Initializer) :
    substituteInitializers bindings initializers =
      initializers.map fun init =>
        ⟨init.member, init.memberType, init.value.substitute bindings⟩ := by
  induction initializers with
  | nil => rw [substituteInitializers, List.map_nil]
  | cons first rest inductionHypothesis =>
    obtain ⟨name, declared, value⟩ := first
    rw [substituteInitializers, inductionHypothesis, List.map_cons]
    rfl

/-- Substitution goes on with the children of a neutral node. -/
theorem substitute_of_neutral {expr : Expr} (neutral : expr.isNeutral = true)
    (bindings : Bindings) :
    expr.substitute bindings = expr.mapChildren (substitute bindings) := by
  cases expr with
  | parameter | projection => cases neutral
  | call target style receiver arguments optional type =>
    cases receiver <;> simp [substitute, mapChildren, substituteAll_eq_map]
  | _ =>
    simp [substitute, mapChildren, substituteAll_eq_map, substituteInitializers_eq_map]

section AvoidCapture

variable (bindings : Bindings) (element : String) (transform : Expr)

/-- The element is kept unless a substituted expression mentions it. -/
theorem avoidCapture_cases :
    (element ∉ bindings.freeNames ∧
      avoidCapture bindings element transform = (element, transform)) ∨
    ∃ number, numberedName element (number + 1) ∉ transform.names ∧
      numberedName element (number + 1) ∉ bindings.freeNames ∧
      avoidCapture bindings element transform =
        (numberedName element (number + 1),
          transform.rename element (numberedName element (number + 1))) := by
  unfold avoidCapture
  split
  · obtain ⟨number, numbered, unused, -⟩ :=
      freshName_first element (transform.names ++ bindings.freeNames)
    rw [List.mem_append, not_or] at unused
    refine .inr ⟨number, unused.1, unused.2, ?_⟩
    simp only [numbered]
  · rename_i notCaptured
    exact .inl ⟨notCaptured, rfl⟩

/-- An element that is renamed apart is not free in the bindings. -/
theorem avoidCapture_not_mem :
    (avoidCapture bindings element transform).1 ∉ bindings.freeNames := by
  rcases avoidCapture_cases bindings element transform with ⟨notFree, same⟩ | ⟨_, -, notFree, same⟩
  · rwa [same]
  · rwa [same]

/-- Renaming an element apart leaves the elements within its transform as they are. -/
theorem elements_avoidCapture :
    (avoidCapture bindings element transform).2.elements = transform.elements := by
  rcases avoidCapture_cases bindings element transform with ⟨-, same⟩ | ⟨_, -, -, same⟩
  · rw [same]
  · rw [same, elements_rename]

variable {bindings element transform}

/-- After an element is renamed apart, the free names are the new element and those that were free
before, without the old element. -/
theorem mem_freeNames_avoidCapture {name : String}
    (free : name ∈ (avoidCapture bindings element transform).2.freeNames) :
    (name = (avoidCapture bindings element transform).1 ∧ element ∈ transform.freeNames) ∨
      (name ∈ transform.freeNames ∧ name ≠ element) := by
  rcases avoidCapture_cases bindings element transform with ⟨-, same⟩ | ⟨_, -, -, same⟩
  · rw [same] at free ⊢
    by_cases bound : name = element
    · exact .inl ⟨bound, bound ▸ free⟩
    · exact .inr ⟨free, bound⟩
  · rw [same] at free ⊢
    exact mem_freeNames_rename free

end AvoidCapture

/-- Substitution adds no names but those of the substituted expressions, and it leaves none of
those that are bound. -/
theorem scopedTo_substitute {bindings : Bindings} {expr : Expr} {known : String → Prop}
    (kept : ∀ name ∈ expr.freeNames, bindings.lookup name = none → known name)
    (added : ∀ name ∈ bindings.freeNames, known name) :
    ScopedTo known (expr.substitute bindings) := by
  induction expr using induction_on_scope generalizing bindings known with
  | parameter name type =>
    rw [substitute]
    cases look : bindings.lookup name with
    | none => exact scopedTo_parameter.2 (kept name (by simp [freeNames]) look)
    | some argument =>
      intro other free
      exact added other (Bindings.mem_freeNames_of_lookup look free)
  | projection source element transform materialize type sourceHypothesis transformHypothesis =>
    rw [substitute, scopedTo_projection]
    constructor
    · apply sourceHypothesis _ added
      intro name free
      exact kept name (mem_freeNames_projection.2 (.inl free))
    · refine transformHypothesis _ (size_avoidCapture ..) ?_ ?_
      · intro name free notBound
        refine (mem_freeNames_avoidCapture free).imp And.left ?_
        rintro ⟨inTransform, other⟩
        rw [Bindings.lookup_erase_of_ne other] at notBound
        exact kept name (mem_freeNames_projection.2 (.inr ⟨inTransform, other⟩)) notBound
      · intro name free
        exact .inr (added name (Bindings.freeNames_erase_subset bindings element free))
  | neutral expr neutral inductionHypothesis =>
    rw [substitute_of_neutral neutral,
      scopedTo_of_neutral ((isNeutral_mapChildren _ expr).trans neutral), children_mapChildren]
    intro changed listed
    obtain ⟨child, isChild, rfl⟩ := List.mem_map.1 listed
    apply inductionHypothesis child isChild _ added
    intro name free
    apply kept
    rw [freeNames_of_neutral neutral]
    exact List.mem_flatMap.2 ⟨child, isChild, free⟩

end Expr

end MappingForms
