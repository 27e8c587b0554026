import MappingForms.Discovery
import MappingForms.Proofs.Table

/-!
Contract: what discovery finds, method by method.

Owns: the declared methods of a unit in one list, discovery as a function of that list, and
the correspondence between the table of callables and the methods with an expression body.

Callables are stored by identity, and of several methods with one identity the last is kept.
An identity names the scope and the method and joins the names of the parameter types. It
tells neither namespaces apart nor a value type from its nullable form.
-/

set_option autoImplicit false

namespace MappingForms

namespace Discovery

namespace Finding

def spec? : Finding → Option Specification
  | .spec found => some found
  | .problem _ | .helper => none

def problem? : Finding → Option Diagnostic
  | .problem diagnostic => some diagnostic
  | .spec _ | .helper => none

end Finding

end Discovery

namespace CompilationUnit

/-- The methods of a unit with their scopes, in declaration order. -/
def declarations (unit : CompilationUnit) : List (Scope × Method) :=
  unit.scopes.flatMap fun scope => scope.methods.map (scope, ·)

/-- The callables of all methods with an expression body, in declaration order. -/
def expressionMethods (unit : CompilationUnit) : List Callable :=
  unit.declarations.filterMap fun declared => Discovery.callable? declared.1 declared.2

end CompilationUnit

namespace Discovery

private theorem addMethod_eq (defaults : Marker) (scope : Scope) (discovery : Discovery)
    (method : Method) :
    addMethod defaults scope discovery method =
      { specs := discovery.specs ++ (classify defaults scope method).spec?.toList
        callables := (callable? scope method).toList.foldl Callables.add discovery.callables
        diagnostics :=
          discovery.diagnostics ++ (classify defaults scope method).problem?.toList } := by
  unfold addMethod
  cases callable? scope method <;> cases classify defaults scope method <;>
    simp [Finding.spec?, Finding.problem?]

private theorem foldl_addMethod_eq (defaults : Marker) (methods : List (Scope × Method))
    (discovery : Discovery) :
    methods.foldl (fun found declared => addMethod defaults declared.1 found declared.2) discovery =
      { specs := discovery.specs ++
          methods.filterMap fun declared => (classify defaults declared.1 declared.2).spec?
        callables :=
          (methods.filterMap fun declared => callable? declared.1 declared.2).foldl Callables.add
            discovery.callables
        diagnostics := discovery.diagnostics ++
          methods.filterMap fun declared =>
            (classify defaults declared.1 declared.2).problem? } := by
  induction methods generalizing discovery with
  | nil => simp
  | cons first rest inductionHypothesis =>
    obtain ⟨scope, method⟩ := first
    rw [List.foldl_cons, inductionHypothesis, addMethod_eq]
    simp only [List.filterMap_cons]
    cases callable? scope method <;> cases (classify defaults scope method).spec? <;>
      cases (classify defaults scope method).problem? <;> simp

end Discovery

namespace CompilationUnit

/-- Discovery treats each method by itself and keeps the order of declaration. -/
theorem discover_eq (unit : CompilationUnit) (defaults : Marker) :
    unit.discover defaults =
      { specs := unit.declarations.filterMap fun declared =>
          (Discovery.classify defaults declared.1 declared.2).spec?
        callables := unit.expressionMethods.foldl Callables.add ∅
        diagnostics := unit.declarations.filterMap fun declared =>
          (Discovery.classify defaults declared.1 declared.2).problem? } := by
  have oneFold : unit.discover defaults =
      unit.declarations.foldl
        (fun found declared => Discovery.addMethod defaults declared.1 found declared.2) {} := by
    unfold discover declarations
    rw [List.foldl_flatMap]
    simp only [List.foldl_map]
    rfl
  rw [oneFold, Discovery.foldl_addMethod_eq]
  simp [expressionMethods]

/-- Discovery reports nothing but problems of methods. -/
theorem exists_problem_of_mem_diagnostics {unit : CompilationUnit} {defaults : Marker}
    {diagnostic : Diagnostic} (reported : diagnostic ∈ (unit.discover defaults).diagnostics) :
    ∃ problem id span, diagnostic = MethodProblem.diagnostic problem id span := by
  rw [discover_eq] at reported
  obtain ⟨⟨scope, method⟩, -, isProblem⟩ := List.mem_filterMap.1 reported
  unfold Discovery.classify at isProblem
  split at isProblem
  · cases isProblem
  · split at isProblem
    · cases isProblem
      exact ⟨_, _, _, rfl⟩
    · cases isProblem
    · cases isProblem
      exact ⟨_, _, _, rfl⟩

end CompilationUnit

/-! ## The table of callables -/

namespace Callables

private theorem toTable_foldl_add (items : List Callable) (callables : Callables) :
    (items.foldl add callables).toTable =
      items.foldl (fun table item => table.insert item.id item) callables.toTable := by
  induction items generalizing callables with
  | nil => rfl
  | cons first rest inductionHypothesis =>
    rw [List.foldl_cons, inductionHypothesis, List.foldl_cons]
    rfl

/-- Of several callables with one identity the last is kept. -/
theorem get?_foldl_add (items : List Callable) (id : CallableId) :
    (items.foldl add ∅).get? id = items.reverse.find? (·.id = id) := by
  rw [toTable_foldl_add, Table.get?_foldl_insert]
  simp [EmptyCollection.emptyCollection, Table.empty, Table.get?]

private theorem map_id_values (callables : Callables) :
    callables.values.map (·.id) = callables.keys := by
  unfold Table.values Table.keys
  rw [List.map_map]
  exact List.map_congr_left fun entry member => (callables.keyed entry member).symm

/-- Nothing is lost exactly when identities are distinct. -/
theorem values_foldl_add_perm_iff (items : List Callable) :
    (items.foldl add ∅).values.Perm items ↔ (items.map (·.id)).Nodup := by
  have valuesNodup : ((items.foldl add ∅).values.map (·.id)).Nodup := by
    rw [map_id_values]
    exact Table.nodup_keys _
  constructor
  · intro complete
    exact (complete.map (·.id)).nodup_iff.1 valuesNodup
  · intro distinct
    refine (List.perm_ext_iff_of_nodup valuesNodup.of_map distinct.of_map).2 fun callable => ?_
    rw [Table.mem_values_iff]
    simp only [get?_foldl_add]
    constructor
    · rintro ⟨id, found⟩
      exact List.mem_reverse.1 (List.mem_of_find?_eq_some found)
    · intro listed
      obtain ⟨found, isFound⟩ : ∃ found, items.reverse.find? (·.id = callable.id) = some found := by
        rw [← Option.isSome_iff_exists, List.find?_isSome]
        exact ⟨callable, List.mem_reverse.2 listed, by simp⟩
      have foundListed := List.mem_reverse.1 (List.mem_of_find?_eq_some isFound)
      have sameId : found.id = callable.id := by simpa using List.find?_some isFound
      rw [← List.inj_on_of_nodup_map distinct foundListed listed sameId]
      exact ⟨callable.id, sameId ▸ isFound⟩

end Callables

namespace CompilationUnit

/-- The table of callables answers with the last method of an identity. It holds one entry for
each method with an expression body, with the parameters and the body of that method, exactly
when no two of these methods have the same identity. -/
theorem discover_callables_complete_iff (unit : CompilationUnit) (defaults : Marker) :
    (∀ id, (unit.discover defaults).callables.get? id =
      unit.expressionMethods.reverse.find? (·.id = id)) ∧
    ((unit.discover defaults).callables.values.Perm unit.expressionMethods ↔
      (unit.expressionMethods.map (·.id)).Nodup) := by
  rw [discover_eq]
  exact ⟨Callables.get?_foldl_add _, Callables.values_foldl_add_perm_iff _⟩

end CompilationUnit

/-! ## Methods that differ in more than their identities -/

/-- What tells two declared methods apart: all that an identity names, the namespace, and for
each parameter of a value type whether it is nullable. -/
structure Declaration where
  namespaceName : Option String
  scopeName : String
  methodName : String
  parameterTypes : List (String × Bool)
deriving DecidableEq

namespace Declaration

def ofMethod (scope : Scope) (method : Method) : Declaration where
  namespaceName := scope.namespaceName
  scopeName := scope.name
  methodName := method.name
  parameterTypes := method.parameters.map fun parameter =>
    (parameter.type.name, parameter.type.isValue && parameter.type.nullable)

end Declaration

namespace NullableOverload

/-- An overload of `M.F` that ignores its argument and returns an integer. -/
def overload (nullable : Bool) (result : Int64) : Method :=
  let int : TypeRef := .value "int"
  { name := "F"
    parameters := [{ name := "x", type := { int with nullable } }]
    returnType := int
    body := .expression (.literal (.integer result) int) }

def scope : Scope := { name := "M", methods := [overload false 1, overload true 2] }

/-- `int F(int x) => 1;` and `int F(int? x) => 2;` -/
def unit : CompilationUnit := { scopes := [scope] }

/-- The two overloads are different declarations. The table holds one entry for both, and the
identity of the first is answered with the body of the second. -/
theorem first_overload_is_lost :
    (unit.declarations.map fun declared => Declaration.ofMethod declared.1 declared.2).Nodup ∧
    ¬(unit.discover {}).callables.values.Perm unit.expressionMethods ∧
    (unit.discover {}).callables.get? ((overload false 1).id "M") =
      Discovery.callable? scope (overload true 2) := by
  rw [CompilationUnit.discover_eq]
  refine ⟨by decide, ?_, ?_⟩
  · rw [Callables.values_foldl_add_perm_iff]
    decide
  · rw [Callables.get?_foldl_add]
    rfl

end NullableOverload

end MappingForms
