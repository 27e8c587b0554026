import MappingForms.Binary64
import MappingForms.CallableId

/-!
Contract: the typed expression trees that mapping methods consist of.

Owns: literals, operators, expressions with their initializers, the type of an
expression, and the tests on a single node that the later stages share.

Does not own: traversals, names, printing or resolution of optional links; each
has a module of its own.
-/

set_option autoImplicit false

namespace MappingForms

inductive Literal where
  | null
  /-- A null that is written with its type. -/
  | typedNull
  | bool (value : Bool)
  | integer (value : Int64)
  | float (value : Binary64)
  | string (value : String)
deriving DecidableEq

namespace Literal

/-- Whether two literals denote the same value. Floats are compared as numbers. -/
def same : Literal → Literal → Bool
  | float left, float right => left.sameNumber right
  | left, right => left == right

end Literal

inductive BinaryOp where
  | add
  | subtract
  | multiply
  | divide
  | remainder
  | equal
  | notEqual
  | less
  | lessOrEqual
  | greater
  | greaterOrEqual
  | and
  | or
deriving DecidableEq

namespace BinaryOp

def symbol : BinaryOp → String
  | add => "+"
  | subtract => "-"
  | multiply => "*"
  | divide => "/"
  | remainder => "%"
  | equal => "=="
  | notEqual => "!="
  | less => "<"
  | lessOrEqual => "<="
  | greater => ">"
  | greaterOrEqual => ">="
  | and => "&&"
  | or => "||"

end BinaryOp

/-- How a call names its target. -/
inductive CallStyle where
  /-- `Scope.Name(arguments)` -/
  | static
  /-- `receiver.Name(arguments)`, where the receiver is the first actual argument. -/
  | extension
  /-- `receiver.Name(arguments)` on a method of the receiver itself. -/
  | method
deriving DecidableEq

mutual

inductive Expr where
  | literal (value : Literal) (type : TypeRef)
  | parameter (name : String) (type : TypeRef)
  /-- `receiver.name`, or `receiver?.name` when optional. -/
  | member (receiver : Expr) (name : String) (optional : Bool) (type : TypeRef)
  | call (target : CallableId) (style : CallStyle) (receiver : Option Expr)
      (arguments : List Expr) (optional : Bool) (type : TypeRef)
  /-- `new Type(arguments) { initializers }` -/
  | construct (type : TypeRef) (arguments : List Expr) (initializers : List Initializer)
  | conditional (condition whenTrue whenFalse : Expr) (type : TypeRef)
  | coalesce (left right : Expr) (type : TypeRef)
  | binary (op : BinaryOp) (left right : Expr) (type : TypeRef)
  | raise (exception : Expr) (type : TypeRef)
  /-- `source.Select(element => transform)`, followed by a call of `materialize` if given.
  The element is bound in the transform. -/
  | projection (source : Expr) (element : String) (transform : Expr)
      (materialize : Option String) (type : TypeRef)
  /-- `body` if the receiver is not null, and null otherwise. -/
  | guarded (receiver body : Expr) (type : TypeRef)

/-- One member assignment of an object construction. -/
inductive Initializer where
  | mk (member : String) (memberType : TypeRef) (value : Expr)

end

namespace Initializer

def member : Initializer → String
  | mk name _ _ => name

def memberType : Initializer → TypeRef
  | mk _ type _ => type

def value : Initializer → Expr
  | mk _ _ expr => expr

end Initializer

namespace Expr

def type : Expr → TypeRef
  | literal _ type => type
  | parameter _ type => type
  | member _ _ _ type => type
  | call _ _ _ _ _ type => type
  | construct type _ _ => type
  | conditional _ _ _ type => type
  | coalesce _ _ type => type
  | binary _ _ _ type => type
  | raise _ type => type
  | projection _ _ _ _ type => type
  | guarded _ _ type => type

def isNull : Expr → Bool
  | literal .null _ => true
  | literal .typedNull _ => true
  | _ => false

def isRaise : Expr → Bool
  | raise .. => true
  | _ => false

/-- Whether this node itself yields null when its receiver is null. -/
def isOptionalLink : Expr → Bool
  | member _ _ optional _ => optional
  | call _ _ _ _ optional _ => optional
  | guarded .. => true
  | _ => false

/-- `null` with the type of the given expression. -/
def nullLike (expr : Expr) : Expr := literal .null expr.type

/-- `expr == null` -/
def isNullCheck (expr : Expr) : Expr := binary .equal expr expr.nullLike .boolean

/-- `expr != null` -/
def notNullCheck (expr : Expr) : Expr := binary .notEqual expr expr.nullLike .boolean

/-- The receiver through which a node continues a chain of accesses. -/
def chainReceiver : Expr → Option Expr
  | member receiver _ _ _ => some receiver
  | call _ _ receiver _ _ _ => receiver
  | projection source _ _ _ _ => some source
  | guarded receiver _ _ => some receiver
  | _ => none

end Expr

end MappingForms
