import MappingForms.Proofs.Expr.Children
import MappingForms.Proofs.Source.Lexis

/-!
Contract: what the text of an expression says, without what it leaves out.

Owns: surface expressions, the surface form of a typed expression, and the expressions all of
whose names can be read back.

Types are left out unless they are written, and so is all that a call needs to find its target.
Distinct expressions with one surface form are written alike on purpose.
-/

set_option autoImplicit false

namespace MappingForms

/-- An expression as it stands in source. -/
inductive Surface where
  | name (spelling : String)
  /-- A literal other than a null with its type. -/
  | literal (value : Literal)
  | typedNull (type : String)
  | access (receiver : Surface) (optional : Bool) (member : String)
  | invoke (callee : Surface) (arguments : List Surface)
  | construct (type : String) (arguments : List Surface) (initializers : List (String × Surface))
  | conditional (condition whenTrue whenFalse : Surface)
  | coalesce (left right : Surface)
  | binary (op : BinaryOp) (left right : Surface)
  | raise (exception : Surface)
  | lambda (parameter : String) (body : Surface)

namespace Surface

/-- A literal as it is written: there is one spelling for all that is not a number. -/
def ofLiteral (context : NullableContext) (value : Literal) (type : TypeRef) : Surface :=
  match value with
  | .typedNull => typedNull (type.display context)
  | .float value => literal (.float (if value.isNaN then .nan else value))
  | value => literal value

mutual

/-- The surface form of an expression. -/
def ofExpr (context : NullableContext) : Expr → Surface
  | .literal value type => ofLiteral context value type
  | .parameter spelling _ => name spelling
  | .member receiver member optional _ => access (ofExpr context receiver) optional member
  | .call target style receiver arguments optional _ =>
    let callee := match style, receiver with
      | .static, _ => access (name target.scope) false target.name
      | _, some receiver => access (ofExpr context receiver) optional target.name
      | _, none => name target.name
    invoke callee (ofExprs context arguments)
  | .construct type arguments initializers =>
    construct (type.display context) (ofExprs context arguments)
      (ofInitializers context initializers)
  | .conditional condition whenTrue whenFalse _ =>
    conditional (ofExpr context condition) (ofExpr context whenTrue) (ofExpr context whenFalse)
  | .coalesce left right _ => coalesce (ofExpr context left) (ofExpr context right)
  | .binary op left right _ => binary op (ofExpr context left) (ofExpr context right)
  | .raise exception _ => raise (ofExpr context exception)
  | .projection source element transform materialize _ =>
    let select := invoke (access (ofExpr context source) false "Select")
      [lambda element (ofExpr context transform)]
    match materialize with
    | some method => invoke (access select false method) []
    | none => select
  | .guarded receiver body type =>
    conditional (binary .notEqual (ofExpr context receiver) (literal .null))
      (ofExpr context body) (typedNull ((type.lifted context).display context))
termination_by structural expr => expr

@[inherit_doc ofExpr]
def ofExprs (context : NullableContext) : List Expr → List Surface
  | [] => []
  | first :: rest => ofExpr context first :: ofExprs context rest
termination_by structural exprs => exprs

@[inherit_doc ofExpr]
def ofInitializers (context : NullableContext) : List Initializer → List (String × Surface)
  | [] => []
  | ⟨member, _, value⟩ :: rest =>
    (member, ofExpr context value) :: ofInitializers context rest
termination_by structural initializers => initializers

end

def ofCallee (context : NullableContext) (target : CallableId) (style : CallStyle)
    (receiver : Option Expr) (optional : Bool) : Surface :=
  match style, receiver with
  | .static, _ => access (name target.scope) false target.name
  | _, some receiver => access (ofExpr context receiver) optional target.name
  | _, none => name target.name

theorem ofExpr_call (context : NullableContext) (target : CallableId) (style : CallStyle)
    (receiver : Option Expr) (arguments : List Expr) (optional : Bool) (type : TypeRef) :
    ofExpr context (.call target style receiver arguments optional type) =
      invoke (ofCallee context target style receiver optional) (ofExprs context arguments) := by
  cases style <;> cases receiver <;> rfl

end Surface

namespace Expr

/-- Whether the names that a node writes can be read back. -/
def isSpelled : Expr → Bool
  | literal .typedNull type => Source.isTypeName type.name
  | parameter name _ => Source.isIdentifier name
  | member _ name _ _ => Source.isIdentifier name
  | call target style _ _ _ _ =>
    (style != .static || Source.isIdentifier target.scope) && Source.isIdentifier target.name
  | construct type _ initializers =>
    Source.isTypeName type.name && initializers.all fun set => Source.isIdentifier set.member
  | projection _ element _ materialize _ =>
    Source.isIdentifier element && materialize.all Source.isIdentifier
  | guarded _ _ type => Source.isTypeName type.name
  | _ => true

/-- Whether every parameter, member, scope, method and element that an expression writes is an
identifier and every type that it writes has a type name. -/
def isWellNamed (expr : Expr) : Bool := expr.nodes.all isSpelled

/-- The names that a well-named node writes can be read back. -/
theorem isSpelled_of_isWellNamed {expr : Expr} (named : expr.isWellNamed = true) :
    expr.isSpelled = true :=
  List.all_eq_true.1 named expr expr.mem_nodes_self

/-- The children of a well-named expression are well named. -/
theorem isWellNamed_of_mem_children {expr child : Expr} (named : expr.isWellNamed = true)
    (listed : child ∈ expr.children) : child.isWellNamed = true :=
  List.all_eq_true.2 fun node member =>
    List.all_eq_true.1 named node (mem_nodes_of_mem_children listed member)

/-- Induction over the expressions whose names can be read back. -/
theorem induction_on_wellNamed {motive : Expr → Prop}
    (step : ∀ expr, expr.isSpelled = true → (∀ child ∈ expr.children, motive child) → motive expr)
    {expr : Expr} (named : expr.isWellNamed = true) : motive expr := by
  induction expr using induction_on_children with
  | step expr inductionHypothesis =>
    exact step expr (isSpelled_of_isWellNamed named) fun child listed =>
      inductionHypothesis child listed (isWellNamed_of_mem_children named listed)

end Expr

end MappingForms
