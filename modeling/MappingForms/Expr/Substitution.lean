import MappingForms.Expr.Names

/-!
Contract: simultaneous substitution of expressions for free parameters.

Owns: the bindings of parameter names to expressions and their substitution.

Where a projection would bind a free name of a substituted expression, its
element is renamed first, to a name that occurs neither in the transform nor
free in the substituted expressions.
-/

set_option autoImplicit false

namespace MappingForms

/-- Parameter names with the expressions that take their place. A name is bound once. -/
abbrev Bindings := List (String × Expr)

namespace Bindings

def erase (bindings : Bindings) (name : String) : Bindings :=
  bindings.filter fun binding => binding.1 ≠ name

/-- Binds a name, in place of any earlier binding of it. -/
def bind (bindings : Bindings) (name : String) (expr : Expr) : Bindings :=
  (name, expr) :: bindings.erase name

/-- Binds names to expressions position by position. Of a repeated name the last wins. -/
def ofLists (names : List String) (exprs : List Expr) : Bindings :=
  (names.zip exprs).foldl (fun bindings binding => bindings.bind binding.1 binding.2) []

/-- The free names of all bound expressions. -/
def freeNames (bindings : Bindings) : List String :=
  bindings.flatMap fun binding => binding.2.freeNames

end Bindings

namespace Expr

/-- The element and transform of a projection, renamed apart from the free names
of the bindings if the element is one of them. -/
def avoidCapture (bindings : Bindings) (element : String) (transform : Expr) : String × Expr :=
  if element ∈ bindings.freeNames then
    let fresh := freshName element (transform.names ++ bindings.freeNames)
    (fresh, transform.rename element fresh)
  else
    (element, transform)

/-- Renaming an element apart keeps the number of nodes of its transform. -/
theorem size_avoidCapture (bindings : Bindings) (element : String) (transform : Expr) :
    (avoidCapture bindings element transform).2.size = transform.size := by
  unfold avoidCapture
  split <;> simp

mutual

/-- Puts the bound expressions in place of the free parameters that they are bound to. -/
def substitute (bindings : Bindings) (expr : Expr) : Expr :=
  match expr with
  | literal value type => literal value type
  | parameter name type => (bindings.lookup name).getD (parameter name type)
  | member receiver name optional type =>
    member (receiver.substitute bindings) name optional type
  | call target style none arguments optional type =>
    call target style none (substituteAll bindings arguments) optional type
  | call target style (some receiver) arguments optional type =>
    call target style (some (receiver.substitute bindings))
      (substituteAll bindings arguments) optional type
  | construct type arguments initializers =>
    construct type (substituteAll bindings arguments)
      (substituteInitializers bindings initializers)
  | conditional condition whenTrue whenFalse type =>
    conditional (condition.substitute bindings) (whenTrue.substitute bindings)
      (whenFalse.substitute bindings) type
  | coalesce left right type =>
    coalesce (left.substitute bindings) (right.substitute bindings) type
  | binary op left right type =>
    binary op (left.substitute bindings) (right.substitute bindings) type
  | raise exception type => raise (exception.substitute bindings) type
  | projection source element transform materialize type =>
    let inner := bindings.erase element
    let apart := avoidCapture inner element transform
    projection (source.substitute bindings) apart.1 (apart.2.substitute inner) materialize type
  | guarded receiver body type =>
    guarded (receiver.substitute bindings) (body.substitute bindings) type
termination_by 2 * expr.size
decreasing_by
  all_goals try rw [size_avoidCapture]
  all_goals simp only [size, nodes, List.length_cons, List.length_append]
  all_goals omega

@[inherit_doc substitute]
def substituteAll (bindings : Bindings) (exprs : List Expr) : List Expr :=
  match exprs with
  | [] => []
  | first :: rest => first.substitute bindings :: substituteAll bindings rest
termination_by 2 * (nodesOfAll exprs).length + 1
decreasing_by
  all_goals have := first.size_pos
  all_goals simp only [size, nodesOfAll, List.length_append] at *
  all_goals omega

@[inherit_doc substitute]
def substituteInitializers (bindings : Bindings) (initializers : List Initializer) :
    List Initializer :=
  match initializers with
  | [] => []
  | ⟨name, declared, value⟩ :: rest =>
    ⟨name, declared, value.substitute bindings⟩ :: substituteInitializers bindings rest
termination_by 2 * (nodesOfInitializers initializers).length + 1
decreasing_by
  all_goals have := value.size_pos
  all_goals simp only [size, nodesOfInitializers, List.length_append] at *
  all_goals omega

end

end Expr

end MappingForms
