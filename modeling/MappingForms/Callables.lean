import MappingForms.CompilationUnit
import MappingForms.Expr.Traversal
import MappingForms.Table

/-!
Contract: the methods whose bodies can take the place of calls.

Owns: the callable, the table of callables by identity, and the known callees
that an expression calls.
-/

set_option autoImplicit false

namespace MappingForms

/-- A method with a single expression as its body. -/
structure Callable where
  id : CallableId
  parameters : List Parameter
  body : Expr

/-- The callables of a batch, in the order of their identities. Each is stored under
its own identity. -/
structure Callables extends Table CallableId Callable where
  keyed : ∀ entry ∈ entries, entry.1 = entry.2.id

namespace Callables

instance : EmptyCollection Callables := ⟨⟨∅, fun _ member => nomatch member⟩⟩

/-- Adds a callable, in place of any callable with the same identity. -/
def add (callables : Callables) (callable : Callable) : Callables where
  toTable := callables.insert callable.id callable
  keyed := by
    intro entry member
    rcases Table.mem_place member with same | earlier
    · rw [same]
    · exact callables.keyed entry earlier

/-- The target of a call that can be expanded in principle: a method of the
receiver itself is chosen at run time and is never expanded. -/
def calledId? : Expr → Option CallableId
  | .call target style _ _ _ _ => if style = .method then none else some target
  | _ => none

/-- The distinct known callees of an expression, in the order of first calls. -/
def outgoingCalls (callables : Callables) (expr : Expr) : List CallableId :=
  let targets := (expr.nodes.filterMap calledId?).filter callables.contains
  targets.foldl (fun found target => if found.contains target then found else found ++ [target]) []

end Callables

end MappingForms
