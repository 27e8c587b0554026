/-!
Contract: the marker that asks for generated forms, and how markers are layered.

Owns: the two policies, the marker with its optional settings, the layering of
one marker over another, and the settings that result when nothing is left
unset.
-/

set_option autoImplicit false

namespace MappingForms

/-- What becomes of optional links in a mapping body. -/
inductive LinkPolicy where
  /-- Optional links stay as they are. -/
  | keep
  /-- Every optional link becomes a plain one. -/
  | ignore
  /-- Every optional link becomes an explicit test for null. -/
  | expand
deriving DecidableEq, Inhabited

/-- Whether an update form writes members that hold collections. -/
inductive CollectionPolicy where
  | generate
  | skip
deriving DecidableEq, Inhabited

/-- The settings written on a method or a scope. What is unset is decided by the
next layer. -/
structure Marker where
  expression : Option Bool := none
  update : Option Bool := none
  links : Option LinkPolicy := none
  collections : Option CollectionPolicy := none
deriving DecidableEq, Inhabited

namespace Marker

/-- The marker on top of a fallback: every setting comes from the marker where
it is set there, and from the fallback otherwise. -/
def layeredOn (marker fallback : Marker) : Marker where
  expression := marker.expression.or fallback.expression
  update := marker.update.or fallback.update
  links := marker.links.or fallback.links
  collections := marker.collections.or fallback.collections

end Marker

/-- The settings of one specification, all decided. -/
structure SpecOptions where
  /-- Whether the expression form is wanted. -/
  expression : Bool
  /-- Whether the update form is wanted. -/
  update : Bool
  links : LinkPolicy
  collections : CollectionPolicy
deriving DecidableEq, Inhabited

namespace SpecOptions

/-- Decides what a marker leaves unset: the expression form is wanted, the update
form is not, optional links stay and collections are written. -/
def ofMarker (marker : Marker) : SpecOptions where
  expression := marker.expression.getD true
  update := marker.update.getD false
  links := marker.links.getD .keep
  collections := marker.collections.getD .generate

end SpecOptions

end MappingForms
