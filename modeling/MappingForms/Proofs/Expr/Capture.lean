import MappingForms.Proofs.Expr.Nameless

/-!
Contract: when substitution avoids capture.

Owns: the nameless forms of bindings, the clash of a fresh name with a bound one, and the law that
substitution acts on nameless forms exactly as long as there is no clash.

An element that a substituted expression mentions is renamed before the transform is entered. Its
new name occurs neither in the transform nor free in the substituted expressions, but it may be one
of the names that are still to be substituted. The element then gives way to an argument.
-/

set_option autoImplicit false

namespace MappingForms

namespace Bindings

/-- The nameless forms of the expressions that names are bound to. -/
def nameless (bindings : Bindings) (name : String) : Option Nameless :=
  (bindings.lookup name).map (Expr.nameless [])

private theorem closed_nameless (bindings : Bindings) : Nameless.Closed bindings.nameless := by
  intro name form look index
  obtain ⟨argument, -, rfl⟩ := Option.map_eq_some_iff.1 look
  rw [Bool.eq_false_iff, Ne, Expr.refersTo_nameless]
  rintro ⟨free, -, impossible⟩
  cases impossible

end Bindings

namespace Expr

/-- Somewhere in the expression, an element that its transform mentions is renamed to a name that
is still to be substituted there. -/
inductive Clashes : Bindings → Expr → Prop where
  | element {bindings : Bindings} {source transform : Expr} {element : String}
      {materialize : Option String} {type : TypeRef}
      (mentioned : element ∈ transform.freeNames)
      (bound : ((bindings.erase element).lookup
        (avoidCapture (bindings.erase element) element transform).1).isSome) :
      Clashes bindings (projection source element transform materialize type)
  | source {bindings : Bindings} {source transform : Expr} {element : String}
      {materialize : Option String} {type : TypeRef} (inSource : Clashes bindings source) :
      Clashes bindings (projection source element transform materialize type)
  | transform {bindings : Bindings} {source transform : Expr} {element : String}
      {materialize : Option String} {type : TypeRef}
      (inTransform : Clashes (bindings.erase element)
        (avoidCapture (bindings.erase element) element transform).2) :
      Clashes bindings (projection source element transform materialize type)
  | child {bindings : Bindings} {expr child : Expr} (neutral : expr.isNeutral = true)
      (listed : child ∈ expr.children) (inChild : Clashes bindings child) :
      Clashes bindings expr

section Cases

variable {bindings : Bindings}

private theorem not_clashes_parameter (name : String) (type : TypeRef) :
    ¬Clashes bindings (parameter name type) := by
  intro clashes
  cases clashes with
  | child neutral => cases neutral

private theorem clashes_projection_iff {source transform : Expr} {element : String}
    {materialize : Option String} {type : TypeRef} :
    Clashes bindings (projection source element transform materialize type) ↔
      Clashes bindings source ∨
      (element ∈ transform.freeNames ∧ ((bindings.erase element).lookup
        (avoidCapture (bindings.erase element) element transform).1).isSome) ∨
      Clashes (bindings.erase element)
        (avoidCapture (bindings.erase element) element transform).2 := by
  constructor
  · intro clashes
    cases clashes with
    | element mentioned bound => exact .inr (.inl ⟨mentioned, bound⟩)
    | source inSource => exact .inl inSource
    | transform inTransform => exact .inr (.inr inTransform)
    | child neutral => cases neutral
  · rintro (inSource | ⟨mentioned, bound⟩ | inTransform)
    · exact .source inSource
    · exact .element mentioned bound
    · exact .transform inTransform

private theorem clashes_iff_of_neutral {expr : Expr} (neutral : expr.isNeutral = true) :
    Clashes bindings expr ↔ ∃ child ∈ expr.children, Clashes bindings child := by
  constructor
  · intro clashes
    cases clashes with
    | child _ listed inChild => exact ⟨_, listed, inChild⟩
    | _ => cases neutral
  · rintro ⟨child, listed, inChild⟩
    exact .child neutral listed inChild

end Cases

/-! ## Renamed elements -/

/-- The new name of an element is no other free name of the transform. -/
theorem ne_avoidCapture (bindings : Bindings) {element name : String} {transform : Expr}
    (free : name ∈ transform.freeNames) (other : name ≠ element) :
    name ≠ (avoidCapture bindings element transform).1 := by
  rcases avoidCapture_cases bindings element transform with ⟨-, same⟩ | ⟨number, unused, -, same⟩
  · rwa [same]
  · rw [same]
    rintro rfl
    exact unused (mem_names_of_mem_freeNames free)

/-- An element and its transform are renamed together. -/
theorem nameless_avoidCapture (bindings : Bindings) (element : String) (transform : Expr)
    (scope : List String) :
    (avoidCapture bindings element transform).2.nameless
        ((avoidCapture bindings element transform).1 :: scope) =
      transform.nameless (element :: scope) := by
  rcases avoidCapture_cases bindings element transform with
    ⟨-, same⟩ | ⟨number, unused, -, same⟩
  · rw [same]
  · rw [same]
    refine nameless_rename unused ?_ ⟨0, ?_, ?_⟩
    · intro name free notElement
      have notFresh : numberedName element (number + 1) ≠ name := fun isFresh =>
        unused (isFresh ▸ mem_names_of_mem_freeNames free)
      rw [List.idxOf?_cons, List.idxOf?_cons, if_neg (by simpa using Ne.symm notElement),
        if_neg (by simpa using notFresh)]
    · rw [List.idxOf?_cons, if_pos (beq_self_eq_true _)]
    · rw [List.idxOf?_cons, if_pos (beq_self_eq_true _)]

/-- Where the new name of an element is still to be substituted, nothing in the result refers to
the element any more. -/
theorem not_refersTo_of_clash {bindings : Bindings} {element : String} {transform : Expr}
    (bound : (bindings.lookup (avoidCapture bindings element transform).1).isSome)
    (scope : List String) :
    (((avoidCapture bindings element transform).2.substitute bindings).nameless
      ((avoidCapture bindings element transform).1 :: scope)).refersTo 0 = false := by
  have gone : ((avoidCapture bindings element transform).2.substitute bindings).ScopedTo
      (· ≠ (avoidCapture bindings element transform).1) := by
    apply scopedTo_substitute
    · intro name _ notBound isNew
      rw [isNew] at notBound
      simp [notBound] at bound
    · intro name free isNew
      exact avoidCapture_not_mem bindings element transform (isNew ▸ free)
  rw [Bool.eq_false_iff, Ne, refersTo_nameless]
  rintro ⟨name, free, place⟩
  have notNew := gone name free
  rw [List.idxOf?_cons, if_neg (by simpa using Ne.symm notNew)] at place
  obtain ⟨index, -, impossible⟩ := Option.map_eq_some_iff.1 place
  cases impossible

/-! ## Substitution on nameless forms -/

/-- The law inside of projections. What is bound around the expression is not substituted, and the
substituted expressions do not mention it. -/
theorem nameless_substitute_iff_in_scope {bindings : Bindings} {expr : Expr} {scope : List String}
    {arguments : String → Option Nameless} (closed : Nameless.Closed arguments)
    (hidden : ∀ name ∈ expr.freeNames, name ∈ scope → bindings.lookup name = none)
    (agree : ∀ name ∈ expr.freeNames, name ∉ scope → arguments name = bindings.nameless name)
    (apart : ∀ name ∈ bindings.freeNames, name ∉ scope) :
    (expr.substitute bindings).nameless scope = (expr.nameless scope).substitute arguments ↔
      ¬Clashes bindings expr := by
  induction expr using induction_on_scope generalizing bindings scope with
  | parameter name type =>
    refine iff_of_true ?_ (not_clashes_parameter name type)
    have isFree : name ∈ (parameter name type).freeNames := by simp [freeNames]
    rw [substitute, nameless]
    by_cases inside : name ∈ scope
    · obtain ⟨index, place⟩ := Option.isSome_iff_exists.1 (List.isSome_idxOf?.2 inside)
      rw [hidden name isFree inside, Option.getD_none, nameless, place]
      rfl
    · have outside : scope.idxOf? name = none := List.idxOf?_eq_none_iff.2 inside
      rw [outside, Nameless.substitute, agree name isFree inside, Bindings.nameless]
      cases look : bindings.lookup name with
      | none =>
        rw [Option.getD_none, nameless, outside]
        rfl
      | some argument =>
        apply nameless_congr
        intro other free
        have notBound := apart other (Bindings.mem_freeNames_of_lookup look free)
        rw [List.idxOf?_eq_none_iff.2 notBound]
        rfl
  | projection source element transform materialize type sourceHypothesis transformHypothesis =>
    have sourceIff := sourceHypothesis
      (fun name free => hidden name (mem_freeNames_projection.2 (.inl free)))
      (fun name free => agree name (mem_freeNames_projection.2 (.inl free))) apart
    rw [substitute, nameless, nameless, Nameless.substitute, Nameless.projection.injEq,
      clashes_projection_iff, not_or, not_or, sourceIff]
    refine and_congr_right fun _ => ?_
    rw [and_iff_left ⟨rfl, rfl⟩, ← nameless_avoidCapture (bindings.erase element) element transform]
    by_cases clash : element ∈ transform.freeNames ∧ ((bindings.erase element).lookup
        (avoidCapture (bindings.erase element) element transform).1).isSome
    · -- The transform refers to its element, and what has become of it does not.
      refine iff_of_false (fun same => ?_) fun noClash => noClash.1 clash
      have refers : (transform.nameless (element :: scope)).refersTo 0 = true :=
        refersTo_nameless.2 ⟨element, clash.1, by rw [List.idxOf?_cons, beq_self_eq_true]; rfl⟩
      rw [← nameless_avoidCapture (bindings.erase element) element transform scope,
        ← Nameless.refersTo_substitute closed, ← same, not_refersTo_of_clash clash.2] at refers
      cases refers
    · rw [and_iff_right clash]
      apply transformHypothesis _ (size_avoidCapture ..)
      · intro name free inside
        rcases mem_freeNames_avoidCapture free with ⟨isElement, mentioned⟩ | ⟨isFree, other⟩
        · rw [isElement]
          by_contra isBound
          exact clash ⟨mentioned, Option.isSome_iff_ne_none.2 isBound⟩
        · have notElement := ne_avoidCapture (bindings.erase element) isFree other
          rw [Bindings.lookup_erase_of_ne other]
          exact hidden name (mem_freeNames_projection.2 (.inr ⟨isFree, other⟩))
            ((List.mem_cons.1 inside).resolve_left notElement)
      · intro name free outside
        rw [List.mem_cons, not_or] at outside
        rcases mem_freeNames_avoidCapture free with ⟨isElement, -⟩ | ⟨isFree, other⟩
        · exact absurd isElement outside.1
        · rw [agree name (mem_freeNames_projection.2 (.inr ⟨isFree, other⟩)) outside.2,
            Bindings.nameless, Bindings.nameless, Bindings.lookup_erase_of_ne other]
      · intro name free inside
        rcases List.mem_cons.1 inside with isElement | around
        · exact avoidCapture_not_mem _ element transform (isElement ▸ free)
        · exact apart name (Bindings.freeNames_erase_subset bindings element free) around
  | neutral expr neutral inductionHypothesis =>
    rw [substitute_of_neutral neutral, nameless_of_neutral neutral,
      nameless_of_neutral ((isNeutral_mapChildren _ expr).trans neutral), head_mapChildren,
      children_mapChildren, Nameless.substitute, Nameless.substituteAll_eq_map,
      Nameless.node.injEq, and_iff_right rfl, clashes_iff_of_neutral neutral]
    simp only [List.map_map, List.map_inj_left, Function.comp_apply, not_exists, not_and]
    refine forall₂_congr fun child listed => ?_
    have below {name : String} (free : name ∈ child.freeNames) : name ∈ expr.freeNames := by
      rw [freeNames_of_neutral neutral]
      exact List.mem_flatMap.2 ⟨child, listed, free⟩
    exact inductionHypothesis child listed (fun name free => hidden name (below free))
      (fun name free => agree name (below free)) apart

/-- No clash is possible where no name is bound that reads like an element with a number. -/
theorem not_clashes_of_unnumbered {bindings : Bindings} {expr : Expr}
    (unnumbered : ∀ element ∈ expr.elements, ∀ number,
      bindings.lookup (numberedName element number) = none) : ¬Clashes bindings expr := by
  induction expr using induction_on_scope generalizing bindings with
  | parameter name type => exact not_clashes_parameter name type
  | projection source element transform materialize type sourceHypothesis transformHypothesis =>
    rw [elements_projection] at unnumbered
    have keptOut : ∀ {name : String}, bindings.lookup name = none →
        (bindings.erase element).lookup name = none := by
      intro name absent
      by_cases same : name = element
      · rw [same, Bindings.lookup_erase_self]
      · rw [Bindings.lookup_erase_of_ne same, absent]
    rw [clashes_projection_iff, not_or, not_or]
    refine ⟨?_, ?_, ?_⟩
    · apply sourceHypothesis
      intro other listed
      exact unnumbered other (List.mem_cons_of_mem _ (List.mem_append_left _ listed))
    · rintro ⟨-, bound⟩
      have absent : (bindings.erase element).lookup
          (avoidCapture (bindings.erase element) element transform).1 = none := by
        rcases avoidCapture_cases (bindings.erase element) element transform with
          ⟨-, same⟩ | ⟨number, -, -, same⟩
        · rw [same, Bindings.lookup_erase_self]
        · rw [same]
          exact keptOut (unnumbered element List.mem_cons_self (number + 1))
      simp [absent] at bound
    · apply transformHypothesis _ (size_avoidCapture ..)
      intro other listed number
      refine keptOut (unnumbered other (List.mem_cons_of_mem _ (List.mem_append_right _ ?_)) number)
      rwa [elements_avoidCapture] at listed
  | neutral expr neutral inductionHypothesis =>
    rw [clashes_iff_of_neutral neutral]
    rintro ⟨child, listed, inChild⟩
    refine inductionHypothesis child listed (fun element isElement => ?_) inChild
    apply unnumbered
    rw [elements_of_neutral neutral]
    exact List.mem_flatMap.2 ⟨child, listed, isElement⟩

/-- Substitution puts the nameless forms of the bound expressions in place of the free occurrences
of their names, and changes nothing else, exactly when no element is renamed to a name that is
still to be substituted. That is so in particular if no bound name reads like an element of the
expression with a number appended. -/
theorem substitute_avoids_capture_iff (bindings : Bindings) (expr : Expr) :
    ((expr.substitute bindings).nameless [] =
        (expr.nameless []).substitute bindings.nameless ↔ ¬Clashes bindings expr) ∧
    ((∀ element ∈ expr.elements, ∀ number,
        bindings.lookup (numberedName element number) = none) → ¬Clashes bindings expr) := by
  refine ⟨?_, not_clashes_of_unnumbered⟩
  apply nameless_substitute_iff_in_scope bindings.closed_nameless
  · intro name _ impossible
    cases impossible
  · intro name _ _
    rfl
  · intro name _ impossible
    cases impossible

end Expr

namespace NumberedParameter

open TypeRef (string strings)

/-- The body of `Tag(items, prefix, t1) => items.Select(t => prefix + t)`. -/
def tagged : Expr :=
  .projection (.parameter "items" strings) "t"
    (.binary .add (.parameter "prefix" string) (.parameter "t" string) string) none strings

/-- The actual arguments of `Tag(tags, t, "x")`. -/
def actuals : Bindings :=
  .ofLists ["items", "prefix", "t1"]
    [.parameter "tags" strings, .parameter "t" string, .literal (.string "x") string]

/-- `t => prefix + t` becomes `t1 => prefix + t1`. -/
theorem avoidCapture_tagged :
    Expr.avoidCapture (actuals.erase "t") "t"
        (.binary .add (.parameter "prefix" string) (.parameter "t" string) string) =
      ("t1", .binary .add (.parameter "prefix" string) (.parameter "t1" string) string) :=
  rfl

private theorem substitute_tagged :
    tagged.substitute actuals =
      .projection (.parameter "tags" strings) "t1"
        (.binary .add (.parameter "t" string) (.literal (.string "x") string) string) none
        strings := by
  rw [tagged, Expr.substitute, avoidCapture_tagged]
  simp only [Expr.substitute]
  rfl

/-- The element `t` would capture the argument `t` and is renamed to `t1`, which is a parameter
itself. The argument of that parameter takes the place of the element, so that the result
`tags.Select(t1 => t + "x")` does not mention its element. -/
theorem element_gives_way_to_argument :
    (tagged.substitute actuals).nameless [] ≠
      (tagged.nameless []).substitute actuals.nameless := by
  rw [substitute_tagged, tagged]
  simp [Expr.nameless, Expr.children, Nameless.substitute, Nameless.substituteAll,
    Bindings.nameless, actuals]

end NumberedParameter

end MappingForms
