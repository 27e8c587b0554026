import MappingForms.Proofs.Expr.Scope

/-!
Contract: expressions up to the names of projection elements.

Owns: the nameless form of an expression, substitution in nameless forms, the parameters that a
nameless form refers to, and the law that renaming an element keeps the nameless form.

A bound parameter is given by the number of projections between it and the one that binds it, and
a free parameter by its name. All else about a node is kept, so that the nameless form forgets the
names of elements and nothing more.
-/

set_option autoImplicit false

namespace MappingForms

/-- An expression without names for the elements of projections. -/
inductive Nameless where
  /-- A parameter that a projection binds, with the number of projections in between. -/
  | bound (index : Nat) (type : TypeRef)
  | free (name : String) (type : TypeRef)
  /-- A projection. Its transform is one step further inside. -/
  | projection (source transform : Nameless) (materialize : Option String) (type : TypeRef)
  /-- Any other node: what it is apart from its children, and its children. -/
  | node (head : Expr) (children : List Nameless)

namespace Nameless

mutual

/-- Puts nameless forms in place of free parameters. They refer to no projection around them, so
nothing in them has to be adjusted, wherever they are put. -/
def substitute (arguments : String → Option Nameless) : Nameless → Nameless
  | bound index type => bound index type
  | free name type => (arguments name).getD (free name type)
  | projection source transform materialize type =>
    projection (source.substitute arguments) (transform.substitute arguments) materialize type
  | node head children => node head (substituteAll arguments children)
termination_by structural form => form

@[inherit_doc substitute]
def substituteAll (arguments : String → Option Nameless) : List Nameless → List Nameless
  | [] => []
  | first :: rest => first.substitute arguments :: substituteAll arguments rest
termination_by structural forms => forms

end

theorem substituteAll_eq_map (arguments : String → Option Nameless) (forms : List Nameless) :
    substituteAll arguments forms = forms.map (substitute arguments) := by
  induction forms with
  | nil => rfl
  | cons first rest inductionHypothesis =>
    rw [substituteAll, inductionHypothesis, List.map_cons]

mutual

/-- Whether the form refers to the projection that many steps around it. -/
def refersTo (index : Nat) : Nameless → Bool
  | bound found _ => found == index
  | free .. => false
  | projection source transform _ _ => source.refersTo index || transform.refersTo (index + 1)
  | node _ children => anyRefersTo index children
termination_by structural form => form

@[inherit_doc refersTo]
def anyRefersTo (index : Nat) : List Nameless → Bool
  | [] => false
  | first :: rest => first.refersTo index || anyRefersTo index rest
termination_by structural forms => forms

end

private theorem anyRefersTo_eq_any (index : Nat) (forms : List Nameless) :
    anyRefersTo index forms = forms.any (refersTo index) := by
  induction forms with
  | nil => rfl
  | cons first rest inductionHypothesis =>
    rw [anyRefersTo, inductionHypothesis, List.any_cons]

/-- The forms refer to nothing around them. -/
def Closed (arguments : String → Option Nameless) : Prop :=
  ∀ name form, arguments name = some form → ∀ index, form.refersTo index = false

mutual

/-- Forms that refer to nothing around them add no reference where they are put. -/
theorem refersTo_substitute {arguments : String → Option Nameless} (closed : Closed arguments) :
    ∀ (form : Nameless) (index : Nat),
      (form.substitute arguments).refersTo index = form.refersTo index
  | bound .., _ => rfl
  | free name type, index => by
    rw [substitute]
    cases look : arguments name with
    | none => rfl
    | some form => exact closed name form look index
  | projection source transform _ _, index => by
    rw [substitute, refersTo, refersTo, refersTo_substitute closed source index,
      refersTo_substitute closed transform (index + 1)]
  | node _ children, index => anyRefersTo_substituteAll closed children index
termination_by structural form => form

private theorem anyRefersTo_substituteAll {arguments : String → Option Nameless}
    (closed : Closed arguments) :
    ∀ (forms : List Nameless) (index : Nat),
      anyRefersTo index (substituteAll arguments forms) = anyRefersTo index forms
  | [], _ => rfl
  | first :: rest, index => by
    rw [substituteAll, anyRefersTo, anyRefersTo, refersTo_substitute closed first index,
      anyRefersTo_substituteAll closed rest index]
termination_by structural forms => forms

end

end Nameless

namespace Expr

/-- What a node is apart from its children. -/
def head (expr : Expr) : Expr := expr.mapChildren fun _ => literal .null .boolean

theorem head_mapChildren (change : Expr → Expr) (expr : Expr) :
    (expr.mapChildren change).head = expr.head := by
  cases expr with
  | call target style receiver arguments optional type =>
    cases receiver <;> simp [head, mapChildren, Function.comp_def]
  | construct type arguments initializers =>
    simp [head, mapChildren, Function.comp_def, Initializer.member, Initializer.memberType]
  | _ => rfl

/-- The nameless form of an expression inside of projections that bind the given elements,
innermost first. -/
def nameless (scope : List String) (expr : Expr) : Nameless :=
  match expr with
  | parameter name type =>
    match scope.idxOf? name with
    | some index => .bound index type
    | none => .free name type
  | projection source element transform materialize type =>
    .projection (source.nameless scope) (transform.nameless (element :: scope)) materialize type
  | expr => .node expr.head (expr.children.attach.map fun child => child.1.nameless scope)
termination_by expr.size
decreasing_by
  · exact size_lt_of_mem_children List.mem_cons_self
  · exact size_lt_of_mem_children (List.mem_cons_of_mem _ List.mem_cons_self)
  · exact size_lt_of_mem_children child.2

/-- The nameless form of a neutral node is that node over the nameless forms of its children. -/
theorem nameless_of_neutral {expr : Expr} (neutral : expr.isNeutral = true)
    (scope : List String) :
    expr.nameless scope = .node expr.head (expr.children.map (nameless scope)) := by
  cases expr with
  | parameter | projection => cases neutral
  | _ =>
    rw [nameless, List.attach_map_val (f := nameless scope)]
    · nofun
    · nofun

/-- The nameless form depends on where the free names are bound and on nothing else around it. -/
theorem nameless_congr {expr : Expr} {scope other : List String}
    (agree : ∀ name ∈ expr.freeNames, scope.idxOf? name = other.idxOf? name) :
    expr.nameless scope = expr.nameless other := by
  induction expr using induction_on_scope generalizing scope other with
  | parameter name type => rw [nameless, nameless, agree name (by simp [freeNames])]
  | projection source element transform materialize type sourceHypothesis transformHypothesis =>
    have sourceEq := sourceHypothesis fun name free =>
      agree name (mem_freeNames_projection.2 (.inl free))
    have transformEq :
        transform.nameless (element :: scope) = transform.nameless (element :: other) := by
      apply transformHypothesis transform rfl
      intro name free
      rw [List.idxOf?_cons, List.idxOf?_cons]
      by_cases bound : element = name
      · rw [if_pos (beq_iff_eq.2 bound), if_pos (beq_iff_eq.2 bound)]
      · rw [agree name (mem_freeNames_projection.2 (.inr ⟨free, Ne.symm bound⟩))]
    rw [nameless, nameless, sourceEq, transformEq]
  | neutral expr neutral inductionHypothesis =>
    rw [nameless_of_neutral neutral, nameless_of_neutral neutral]
    refine congrArg _ (List.map_congr_left fun child listed => ?_)
    apply inductionHypothesis child listed
    intro name free
    apply agree
    rw [freeNames_of_neutral neutral]
    exact List.mem_flatMap.2 ⟨child, listed, free⟩

/-- An expression refers to the projections that bind its free names. -/
theorem refersTo_nameless {expr : Expr} {scope : List String} {index : Nat} :
    (expr.nameless scope).refersTo index = true ↔
      ∃ name ∈ expr.freeNames, scope.idxOf? name = some index := by
  induction expr using induction_on_scope generalizing scope index with
  | parameter name type =>
    rw [nameless]
    cases place : scope.idxOf? name with
    | none => simp [freeNames, Nameless.refersTo, place]
    | some found => simp [freeNames, Nameless.refersTo, place]
  | projection source element transform materialize type sourceHypothesis transformHypothesis =>
    rw [nameless, Nameless.refersTo, Bool.or_eq_true, sourceHypothesis,
      transformHypothesis transform rfl]
    simp only [mem_freeNames_projection, List.idxOf?_cons]
    constructor
    · rintro (⟨name, free, place⟩ | ⟨name, free, place⟩)
      · exact ⟨name, .inl free, place⟩
      · split at place
        · cases place
        · rename_i notBound
          obtain ⟨found, foundEq, same⟩ := Option.map_eq_some_iff.1 place
          obtain rfl := Nat.succ.inj same
          exact ⟨name, .inr ⟨free, fun same => notBound (beq_iff_eq.2 same.symm)⟩, foundEq⟩
    · rintro ⟨name, free | ⟨free, notBound⟩, place⟩
      · exact .inl ⟨name, free, place⟩
      · refine .inr ⟨name, free, ?_⟩
        rw [if_neg (by simpa using Ne.symm notBound), place]
        rfl
  | neutral expr neutral inductionHypothesis =>
    rw [nameless_of_neutral neutral, Nameless.refersTo, Nameless.anyRefersTo_eq_any,
      freeNames_of_neutral neutral]
    simp only [List.any_map, List.any_eq_true, Function.comp_apply, List.mem_flatMap]
    constructor
    · rintro ⟨child, listed, refers⟩
      obtain ⟨name, free, place⟩ := (inductionHypothesis child listed).1 refers
      exact ⟨name, ⟨child, listed, free⟩, place⟩
    · rintro ⟨name, ⟨child, listed, free⟩, place⟩
      exact ⟨child, listed, (inductionHypothesis child listed).2 ⟨name, free, place⟩⟩

/-- Renaming a bound parameter together with the element that binds it keeps the nameless form,
provided that the new name is not in use. -/
theorem nameless_rename {expr : Expr} {old new : String} {scope renamed : List String}
    (fresh : new ∉ expr.names)
    (agree : ∀ name ∈ expr.freeNames, name ≠ old → scope.idxOf? name = renamed.idxOf? name)
    (moved : ∃ index, scope.idxOf? old = some index ∧ renamed.idxOf? new = some index) :
    (expr.rename old new).nameless renamed = expr.nameless scope := by
  induction expr using induction_on_scope generalizing scope renamed with
  | parameter name type =>
    rw [rename]
    by_cases isOld : name = old
    · obtain ⟨index, oldPlace, newPlace⟩ := moved
      rw [if_pos isOld, nameless, nameless, newPlace, isOld, oldPlace]
    · rw [if_neg isOld, nameless, nameless, agree name (by simp [freeNames]) isOld]
  | projection source element transform materialize type sourceHypothesis transformHypothesis =>
    have sourceEq := sourceHypothesis
      (fun used => fresh (mem_names_of_mem_children List.mem_cons_self used))
      (fun name free => agree name (mem_freeNames_projection.2 (.inl free))) moved
    rw [rename, nameless, nameless, sourceEq]
    refine congrArg (Nameless.projection _ · _ _) ?_
    split
    · -- The element hides the old name, so nothing in the transform is renamed.
      rename_i shadowed
      apply nameless_congr
      intro name free
      rw [List.idxOf?_cons, List.idxOf?_cons]
      by_cases bound : element = name
      · rw [if_pos (beq_iff_eq.2 bound), if_pos (beq_iff_eq.2 bound)]
      · rw [← agree name (mem_freeNames_projection.2 (.inr ⟨free, Ne.symm bound⟩))
          (fun same => bound (shadowed.trans same.symm))]
    · rename_i visible
      have notNew : element ≠ new := by
        intro same
        exact fresh (same ▸ element_mem_names ..)
      refine transformHypothesis transform rfl ?_ ?_ ?_
      · intro used
        exact fresh (mem_names_of_mem_children (List.mem_cons_of_mem _ List.mem_cons_self) used)
      · intro name free notOld
        rw [List.idxOf?_cons, List.idxOf?_cons]
        by_cases bound : element = name
        · rw [if_pos (beq_iff_eq.2 bound), if_pos (beq_iff_eq.2 bound)]
        · rw [agree name (mem_freeNames_projection.2 (.inr ⟨free, Ne.symm bound⟩)) notOld]
      · obtain ⟨index, oldPlace, newPlace⟩ := moved
        refine ⟨index + 1, ?_, ?_⟩
        · rw [List.idxOf?_cons, if_neg (by simpa using visible), oldPlace]
          rfl
        · rw [List.idxOf?_cons, if_neg (by simpa using notNew), newPlace]
          rfl
  | neutral expr neutral inductionHypothesis =>
    rw [rename_of_neutral neutral, nameless_of_neutral neutral,
      nameless_of_neutral ((isNeutral_mapChildren _ expr).trans neutral), head_mapChildren,
      children_mapChildren, List.map_map]
    refine congrArg _ (List.map_congr_left fun child listed => ?_)
    refine inductionHypothesis child listed ?_ ?_ moved
    · intro used
      exact fresh (mem_names_of_mem_children listed used)
    · intro name free
      apply agree
      rw [freeNames_of_neutral neutral]
      exact List.mem_flatMap.2 ⟨child, listed, free⟩

end Expr

end MappingForms
