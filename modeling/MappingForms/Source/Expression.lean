import MappingForms.Binary64.Shortest
import MappingForms.Document
import MappingForms.Expr

/-!
Contract: how expressions are written in generated source.

Owns: the quoting of strings, the spelling of floating-point numbers, operator
precedence and the layout of expressions.

Parentheses stand only where precedence needs them. The members of an object
construction stand on lines of their own.
-/

set_option autoImplicit false

namespace MappingForms

namespace Source

/-- A control character has no glyph: the codes below 32 and from 127 to 159. -/
def isControl (c : Char) : Bool := c.toNat < 32 || (127 ≤ c.toNat && c.toNat < 160)

/-- Hexadecimal digits in lower case, at least four of them. -/
def hexCode (code : Nat) : List Char :=
  let digits := Nat.toDigits 16 code
  List.replicate (4 - digits.length) '0' ++ digits

/-- One character inside quotes. Quotes, backslashes and control characters are escaped. -/
def escapeChar (c : Char) : List Char :=
  if c = '"' then ['\\', '"']
  else if c = '\\' then ['\\', '\\']
  else if c = '\n' then ['\\', 'n']
  else if c = '\r' then ['\\', 'r']
  else if c = '\t' then ['\\', 't']
  else if c.toNat = 0 then ['\\', '0']
  else if isControl c then '\\' :: 'u' :: hexCode c.toNat
  else [c]

def stringLiteral (value : String) : String :=
  String.ofList ('"' :: value.toList.flatMap escapeChar ++ ['"'])

/-- A number as a literal of floating-point type. -/
def floatLiteral (value : Binary64) : String :=
  if value.isNaN then "double.NaN"
  else if value.isInfinite then
    if value.isNegative then "double.NegativeInfinity" else "double.PositiveInfinity"
  else value.text

/-- How tightly an expression binds, loosest first. -/
inductive Precedence where
  | raise
  | conditional
  | coalesce
  | or
  | and
  | equality
  | relational
  | additive
  | multiplicative
  | unary
  | primary
deriving DecidableEq

namespace Precedence

def level : Precedence → Nat
  | raise => 0
  | conditional => 1
  | coalesce => 2
  | or => 3
  | and => 4
  | equality => 5
  | relational => 6
  | additive => 7
  | multiplicative => 8
  | unary => 9
  | primary => 10

def tighter : Precedence → Precedence
  | raise => conditional
  | conditional => coalesce
  | coalesce => or
  | or => and
  | and => equality
  | equality => relational
  | relational => additive
  | additive => multiplicative
  | multiplicative => unary
  | unary => primary
  | primary => primary

def ofOp : BinaryOp → Precedence
  | .multiply | .divide | .remainder => multiplicative
  | .add | .subtract => additive
  | .less | .lessOrEqual | .greater | .greaterOrEqual => relational
  | .equal | .notEqual => equality
  | .and => and
  | .or => or

/-- A literal with a sign or a cast binds like a unary operator. -/
def ofLiteral : Literal → Precedence
  | .typedNull => unary
  | .integer value => if value < 0 then unary else primary
  | .float value => if value.isNegative then unary else primary
  | .null | .bool _ | .string _ => primary

def of : Expr → Precedence
  | .literal value _ => ofLiteral value
  | .parameter .. | .member .. | .call .. | .construct .. | .projection .. => primary
  | .binary op _ _ _ => ofOp op
  | .coalesce .. => coalesce
  | .conditional .. | .guarded .. => conditional
  | .raise .. => raise

end Precedence

def accessMark (optional : Bool) : String := if optional then "?." else "."

def literal (context : NullableContext) (value : Literal) (type : TypeRef) : Document :=
  match value with
  | .null => "null"
  | .typedNull => "(" ++ type.display context ++ ")null"
  | .bool true => "true"
  | .bool false => "false"
  | .integer value => toString value.toInt
  | .float value => floatLiteral value
  | .string value => stringLiteral value

/-- A layout in parentheses if the expression it stands for binds less tightly than
its place demands. -/
def parenthesized (expr : Expr) (least : Precedence) (layout : Document) : Document :=
  if (Precedence.of expr).level < least.level then
    .concat ["(", layout, ")"]
  else
    layout

/-- Like `parenthesized`, in a place that also admits an expression that throws. -/
def branched (expr : Expr) (least : Precedence) (layout : Document) : Document :=
  if expr.isRaise then layout else parenthesized expr least layout

def argumentList (arguments : List Document) : Document :=
  .concat ["(", .join arguments ", ", ")"]

mutual

/-- The layout of an expression, without parentheses around it. -/
def expression (context : NullableContext) : Expr → Document
  | .literal value type => literal context value type
  | .parameter name _ => name
  | .member receiver name optional _ =>
    .concat [parenthesized receiver .primary (expression context receiver),
      accessMark optional, name]
  | .call target style receiver arguments optional _ =>
    let callee : Document := match style, receiver with
      | .static, _ => target.scope ++ "." ++ target.name
      | _, some receiver =>
        .concat [parenthesized receiver .primary (expression context receiver),
          accessMark optional, target.name]
      | _, none => target.name
    .concat [callee, argumentList (operands context arguments)]
  | .construct type arguments initializers =>
    let head := "new " ++ type.display context
    let actuals := argumentList (operands context arguments)
    if initializers.isEmpty then .concat [head, actuals]
    else
      .concat [head, if arguments.isEmpty then .nil else actuals,
        .block (.join (assignments context initializers) ",")]
  | .conditional condition whenTrue whenFalse _ =>
    .concat [parenthesized condition .coalesce (expression context condition), " ? ",
      branched whenTrue .coalesce (expression context whenTrue), " : ",
      branched whenFalse .conditional (expression context whenFalse)]
  | .coalesce left right _ =>
    .concat [parenthesized left .or (expression context left), " ?? ",
      branched right .coalesce (expression context right)]
  | .binary op left right _ =>
    let precedence := Precedence.ofOp op
    .concat [parenthesized left precedence (expression context left),
      " " ++ op.symbol ++ " ",
      parenthesized right precedence.tighter (expression context right)]
  | .raise exception _ =>
    .concat ["throw ", parenthesized exception .coalesce (expression context exception)]
  | .projection source element transform materialize _ =>
    let select : Document :=
      .concat [parenthesized source .primary (expression context source), ".Select(",
        element, " => ", expression context transform, ")"]
    match materialize with
    | some name => .concat [select, ".", name, "()"]
    | none => select
  | .guarded receiver body type =>
    .concat [parenthesized receiver .equality (expression context receiver), " != null ? ",
      branched body .coalesce (expression context body), " : ",
      literal context .typedNull (type.lifted context)]
termination_by structural expr => expr

def operands (context : NullableContext) : List Expr → List Document
  | [] => []
  | first :: rest =>
    parenthesized first .conditional (expression context first) :: operands context rest
termination_by structural exprs => exprs

/-- The member assignments of a construction, each on a line of its own. -/
def assignments (context : NullableContext) : List Initializer → List Document
  | [] => []
  | ⟨name, _, value⟩ :: rest =>
    .concat [.line, name, " = ", expression context value] :: assignments context rest
termination_by structural initializers => initializers

end

/-- The layout of an expression where a statement demands an operand: an expression
that throws stands in parentheses. -/
def operand (context : NullableContext) (expr : Expr) : Document :=
  parenthesized expr .conditional (expression context expr)

def printExpression (context : NullableContext) (expr : Expr) : String :=
  (expression context expr).render

end Source

end MappingForms
