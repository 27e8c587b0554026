import MappingForms.Diagnostic
import MappingForms.Expr
import MappingForms.Marker

/-!
Contract: the declarations that one batch works on.

Owns: parameters, methods, scopes and the unit that holds them, as a front end
hands them over. The order of scopes and methods is the order of declaration.
-/

set_option autoImplicit false

namespace MappingForms

structure Parameter where
  name : String
  type : TypeRef
deriving DecidableEq

/-- The body of a method: one expression, or statements that are not looked into. -/
inductive MethodBody where
  | expression (body : Expr)
  | statements

namespace MethodBody

def expression? : MethodBody → Option Expr
  | expression body => some body
  | statements => none

end MethodBody

structure Method where
  name : String
  parameters : List Parameter := []
  returnType : TypeRef
  body : MethodBody
  marker : Option Marker := none
  span : Span := {}

structure Scope where
  namespaceName : Option String := none
  name : String
  isStatic : Bool := false
  marker : Option Marker := none
  methods : List Method := []
  span : Span := {}

structure CompilationUnit where
  nullable : NullableContext := .disabled
  scopes : List Scope := []

namespace Method

def id (method : Method) (scopeName : String) : CallableId :=
  .ofParameterTypes scopeName method.name (method.parameters.map (·.type))

end Method

end MappingForms
