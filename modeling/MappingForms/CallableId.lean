import MappingForms.TypeRef

/-!
Contract: the identity of a callable method and the order of identities.

Owns: the identity, its spelling in messages, and the lexicographic order by
scope, name and signature in which every table of callables is listed.
-/

set_option autoImplicit false

namespace MappingForms

/-- A method is identified by its scope, its name and its parameter types. -/
structure CallableId where
  scope : String
  name : String
  signature : String
deriving DecidableEq

namespace CallableId

/-- The identity of a method with the given parameter types. The signature is
the list of the type names. -/
def ofParameterTypes (scope name : String) (types : List TypeRef) : CallableId :=
  { scope, name, signature := ", ".intercalate (types.map (·.name)) }

def display (id : CallableId) : String :=
  id.scope ++ "." ++ id.name ++ "(" ++ id.signature ++ ")"

instance : Ord CallableId where
  compare := compareLex (compareOn scope) (compareLex (compareOn name) (compareOn signature))

/-- Identities are ordered by scope, then by name, then by signature. -/
theorem compare_eq (left right : CallableId) :
    compare left right =
      (compare left.scope right.scope).then
        ((compare left.name right.name).then (compare left.signature right.signature)) :=
  rfl

instance : Std.TransOrd CallableId :=
  inferInstanceAs (Std.TransCmp (compareLex _ (compareLex _ _)))

instance : Std.LawfulEqOrd CallableId where
  compare_self := by simp
  eq_of_compare := by
    intro left right same
    simp only [compare_eq, Ordering.then_eq_eq, Std.LawfulEqOrd.compare_eq_iff_eq] at same
    cases left
    cases right
    simp_all

end CallableId

end MappingForms
