import Mathlib.Data.List.Forall2
import MappingForms.Proofs.Discovery

/-!
Contract: what each declared method contributes to a batch.

Owns: the settings of a method by layers of markers, the three kinds of contributions with the
conditions for each, and the law that discovery collects one contribution for each method.

A method is asked for by its own marker or by that of its scope. Only its own marker makes a
misfit a problem: a method that fails to fit in a marked scope is a helper. The conditions are
stated of the declaration alone, in no order of checks.
-/

set_option autoImplicit false

namespace MappingForms

/-! ## Layers of markers -/

namespace Marker

/-- A setting as the first of some markers that sets it has it, and else as it is built in. -/
def firstSet {α : Type} (setting : Marker → Option α) (builtIn : α) (layers : List Marker) : α :=
  (layers.findSome? setting).getD builtIn

@[simp]
theorem layeredOn_empty (marker : Marker) : marker.layeredOn {} = marker := by
  simp [layeredOn]

@[simp]
theorem empty_layeredOn (marker : Marker) : layeredOn {} marker = marker := rfl

/-- A setting that each layer takes over from the one below is that of the first layer with it. -/
theorem setting_foldr_layeredOn {α : Type} (setting : Marker → Option α)
    (layered : ∀ marker fallback : Marker,
      setting (marker.layeredOn fallback) = (setting marker).or (setting fallback))
    (unset : setting {} = none) (layers : List Marker) :
    setting (layers.foldr layeredOn {}) = layers.findSome? setting := by
  induction layers with
  | nil => exact unset
  | cons first rest inductionHypothesis =>
    rw [List.foldr_cons, layered, inductionHypothesis, List.findSome?_cons]
    cases setting first <;> rfl

end Marker

namespace SpecOptions

/-- Each setting of layered markers comes from the first layer that sets it. -/
theorem ofMarker_foldr_layeredOn (layers : List Marker) :
    ofMarker (layers.foldr Marker.layeredOn {}) =
      { expression := Marker.firstSet Marker.expression true layers
        update := Marker.firstSet Marker.update false layers
        links := Marker.firstSet Marker.links .keep layers
        collections := Marker.firstSet Marker.collections .generate layers } := by
  unfold ofMarker Marker.firstSet
  rw [Marker.setting_foldr_layeredOn Marker.expression (fun _ _ => rfl) rfl,
    Marker.setting_foldr_layeredOn Marker.update (fun _ _ => rfl) rfl,
    Marker.setting_foldr_layeredOn Marker.links (fun _ _ => rfl) rfl,
    Marker.setting_foldr_layeredOn Marker.collections (fun _ _ => rfl) rfl]

end SpecOptions

namespace Discovery

/-- The markers that decide the settings of a method, the nearest first. -/
def layers (defaults : Marker) (scope : Scope) (method : Method) : List Marker :=
  method.marker.toList ++ scope.marker.toList ++ [defaults]

/-- The settings of a method: each from its own marker, that of its scope, the defaults of the
batch or what is built in, whichever comes first and sets it. -/
def settings (defaults : Marker) (scope : Scope) (method : Method) : SpecOptions where
  expression := Marker.firstSet Marker.expression true (layers defaults scope method)
  update := Marker.firstSet Marker.update false (layers defaults scope method)
  links := Marker.firstSet Marker.links .keep (layers defaults scope method)
  collections := Marker.firstSet Marker.collections .generate (layers defaults scope method)

private theorem ofMarker_layeredOn_scope (defaults : Marker) (scope : Scope) (method : Method) :
    SpecOptions.ofMarker
        ((method.marker.getD {}).layeredOn ((scope.marker.getD {}).layeredOn defaults)) =
      settings defaults scope method := by
  have layersEq : (layers defaults scope method).foldr Marker.layeredOn {} =
      (method.marker.getD {}).layeredOn ((scope.marker.getD {}).layeredOn defaults) := by
    unfold layers
    cases method.marker <;> cases scope.marker <;> simp
  rw [← layersEq, SpecOptions.ofMarker_foldr_layeredOn]
  rfl

/-! ## Contributions -/

/-- What a declared method contributes: one specification, one problem or neither. -/
inductive Contributes (defaults : Marker) (scope : Scope) (method : Method) : Finding → Prop where
  | spec {body : Expr} {parameter : Parameter} (single : method.body = .expression body)
      (one : method.parameters = [parameter])
      (marked : method.marker.isSome ∨ scope.marker.isSome) :
      Contributes defaults scope method <| .spec
        { id := method.id scope.name
          scope :=
            { namespaceName := scope.namespaceName
              name := scope.name
              isStatic := scope.isStatic }
          parameter
          returnType := method.returnType
          body
          options := settings defaults scope method
          span := method.span }
  | statementBody (marked : method.marker.isSome) (several : method.body = .statements) :
      Contributes defaults scope method <|
        .problem (MethodProblem.statementBody.diagnostic (method.id scope.name) method.span)
  | parameterCount {body : Expr} (marked : method.marker.isSome)
      (single : method.body = .expression body) (other : method.parameters.length ≠ 1) :
      Contributes defaults scope method <|
        .problem ((MethodProblem.parameterCount method.parameters.length).diagnostic
          (method.id scope.name) method.span)
  | helper
      (notFit : ¬(method.body.expression?.isSome ∧ method.parameters.length = 1 ∧
        (method.marker.isSome ∨ scope.marker.isSome)))
      (notMisfit : ¬(method.marker.isSome ∧
        (method.body = .statements ∨ method.parameters.length ≠ 1))) :
      Contributes defaults scope method .helper

/-- Every method contributes something, if only as a helper. -/
theorem exists_contributes (defaults : Marker) (scope : Scope) (method : Method) :
    ∃ finding, Contributes defaults scope method finding := by
  by_cases fit : method.body.expression?.isSome ∧ method.parameters.length = 1 ∧
      (method.marker.isSome ∨ scope.marker.isSome)
  · obtain ⟨single, one, marked⟩ := fit
    obtain ⟨parameter, parametersEq⟩ := List.length_eq_one_iff.1 one
    cases bodyEq : method.body with
    | expression body => exact ⟨_, .spec bodyEq parametersEq marked⟩
    | statements => simp [bodyEq, MethodBody.expression?] at single
  · by_cases misfit : method.marker.isSome ∧
        (method.body = .statements ∨ method.parameters.length ≠ 1)
    · obtain ⟨marked, several | other⟩ := misfit
      · exact ⟨_, .statementBody marked several⟩
      · cases bodyEq : method.body with
        | expression body => exact ⟨_, .parameterCount marked bodyEq other⟩
        | statements => exact ⟨_, .statementBody marked bodyEq⟩
    · exact ⟨_, .helper fit misfit⟩

/-- A method is asked for by its own marker, or by that of its scope if it fits. -/
theorem requestedBy_eq (scope : Scope) (method : Method) :
    requestedBy scope method =
      if method.marker.isSome ∨ (scope.marker.isSome ∧
        method.body.expression?.isSome ∧ method.parameters.length = 1) then
        some (method.marker.getD {})
      else
        none := by
  unfold requestedBy
  cases method.marker <;> cases scope.marker <;> simp

/-- Classification finds what a method contributes. -/
theorem Contributes.eq_classify {defaults : Marker} {scope : Scope} {method : Method}
    {finding : Finding} (contributes : Contributes defaults scope method finding) :
    finding = classify defaults scope method := by
  unfold classify
  rw [requestedBy_eq]
  cases contributes with
  | spec single one marked =>
    rw [if_pos (by simpa [single, one, MethodBody.expression?] using marked)]
    simp only [single, one, ofMarker_layeredOn_scope]
  | statementBody marked several =>
    rw [if_pos (.inl marked)]
    simp only [several]
  | parameterCount marked single other =>
    rw [if_pos (.inl marked)]
    simp only [single]
    split
    · contradiction
    · rename_i parameter _ one
      simp [one] at other
    · rfl
  | helper notFit notMisfit =>
    rw [if_neg]
    rintro (marked | ⟨scopeMarked, single, one⟩)
    · -- A marked method that is no misfit has one expression and one parameter, so it fits.
      simp only [marked, true_and, not_or, not_not] at notMisfit
      obtain ⟨notStatements, one⟩ := notMisfit
      cases bodyEq : method.body with
      | expression body => exact notFit ⟨by simp [bodyEq, MethodBody.expression?], one, .inl marked⟩
      | statements => exact notStatements bodyEq
    · exact notFit ⟨single, one, .inr scopeMarked⟩

private theorem contributes_iff {defaults : Marker} {scope : Scope} {method : Method}
    {finding : Finding} :
    Contributes defaults scope method finding ↔ classify defaults scope method = finding := by
  refine ⟨fun contributes => contributes.eq_classify.symm, ?_⟩
  rintro rfl
  obtain ⟨found, contributes⟩ := exists_contributes defaults scope method
  rwa [← contributes.eq_classify]

end Discovery

/-! ## The table of callables -/

/-- A callable is that of a declared method with a single expression as its body. -/
structure Callable.IsOf (callable : Callable) (declared : Scope × Method) : Prop where
  id : callable.id = declared.2.id declared.1.name
  parameters : callable.parameters = declared.2.parameters
  body : declared.2.body = .expression callable.body

namespace Discovery

private theorem callable?_eq_some_iff {declared : Scope × Method} {callable : Callable} :
    callable? declared.1 declared.2 = some callable ↔ callable.IsOf declared := by
  unfold callable?
  cases bodyEq : declared.2.body with
  | expression body =>
    constructor
    · intro found
      cases found
      exact ⟨rfl, rfl, bodyEq⟩
    · rintro ⟨idEq, parametersEq, sameBody⟩
      cases callable
      cases sameBody.symm.trans bodyEq
      simp_all [MethodBody.expression?]
  | statements =>
    constructor
    · intro found
      cases found
    · rintro ⟨-, -, sameBody⟩
      cases sameBody.symm.trans bodyEq

end Discovery

namespace CompilationUnit

/-- The table answers with the last method of an identity. -/
theorem get?_callables_eq_some_iff (unit : CompilationUnit) (defaults : Marker) (id : CallableId)
    (callable : Callable) :
    (unit.discover defaults).callables.get? id = some callable ↔
      callable.id = id ∧ ∃ before declared after,
        unit.declarations = before ++ declared :: after ∧ callable.IsOf declared ∧
        ∀ later ∈ after, ∀ other : Callable, other.IsOf later → other.id ≠ id := by
  rw [discover_eq]
  show (unit.expressionMethods.foldl Callables.add ∅).get? id = some callable ↔ _
  rw [Callables.get?_foldl_add, expressionMethods, ← List.filterMap_reverse, List.find?_filterMap,
    Option.bind_eq_some_iff]
  simp only [List.find?_eq_some_iff_append, ← Discovery.callable?_eq_some_iff]
  -- The table is searched from the last declaration to the first.
  constructor
  · rintro ⟨declared, ⟨named, after, before, reversed, notNamed⟩, found⟩
    rw [List.reverse_eq_append_iff, List.reverse_cons, List.append_assoc] at reversed
    rw [found] at named
    refine ⟨by simpa using named, before.reverse, declared, after.reverse, reversed, found, ?_⟩
    intro later listed other isOther
    simpa [isOther] using notNamed later (List.mem_reverse.1 listed)
  · rintro ⟨named, before, declared, after, split, found, last⟩
    refine ⟨declared, ⟨by simpa [found] using named, after.reverse, before.reverse, ?_, ?_⟩, found⟩
    · simp [split]
    · intro later listed
      cases isOther : Discovery.callable? later.1 later.2 with
      | none => rfl
      | some other => simpa using last later (List.mem_reverse.1 listed) other isOther

/-- Discovery collects one contribution for each declared method, in the order of declaration.

A method with a single expression as its body and exactly one parameter is a specification if it
or its scope is marked. A method that is marked itself and does not fit is a problem: MF0001 where
its body is no single expression, and else MF0002, where it has not exactly one parameter. All
other methods are helpers. The contributions are determined by these conditions. The table of
callables answers an identity with the last method that has it and a single expression as its
body. -/
theorem discover_partitions_methods (unit : CompilationUnit) (defaults : Marker) :
    (∃ findings : List Discovery.Finding,
      (∀ others, List.Forall₂
          (fun declared finding => Discovery.Contributes defaults declared.1 declared.2 finding)
          unit.declarations others ↔ others = findings) ∧
      (unit.discover defaults).specs = findings.filterMap Discovery.Finding.spec? ∧
      (unit.discover defaults).diagnostics = findings.filterMap Discovery.Finding.problem?) ∧
    (MethodProblem.statementBody.code.display = "MF0001" ∧
      ∀ found, (MethodProblem.parameterCount found).code.display = "MF0002") ∧
    (∀ id callable, (unit.discover defaults).callables.get? id = some callable ↔
      callable.id = id ∧ ∃ before declared after,
        unit.declarations = before ++ declared :: after ∧ callable.IsOf declared ∧
        ∀ later ∈ after, ∀ other : Callable, other.IsOf later → other.id ≠ id) := by
  refine ⟨?_, ⟨rfl, fun _ => rfl⟩, unit.get?_callables_eq_some_iff defaults⟩
  refine ⟨unit.declarations.map fun declared =>
    Discovery.classify defaults declared.1 declared.2, fun others => ?_, ?_, ?_⟩
  · simp only [Discovery.contributes_iff]
    rw [← List.forall₂_map_left_iff, List.forall₂_eq_eq_eq, eq_comm]
  · rw [discover_eq, List.filterMap_map]
    rfl
  · rw [discover_eq, List.filterMap_map]
    rfl

end CompilationUnit

end MappingForms
