import MappingForms.Expr
import MappingForms.Interchange.Types

/-!
Contract: the JSON form of expressions.

Owns: the kinds of expressions, what is written for each and what is accepted.

An expression names its kind in a member of its own, or first in array form, and is
checked as a whole before it is taken apart. Below the outermost expression a kind may
also be given by its position in the list of kinds.
-/

set_option autoImplicit false

namespace MappingForms

/-- The JSON form of a double. One that is not finite has no digits, and is written as null. -/
def Binary64.toJson (number : Binary64) : Json :=
  if number.isNaN || number.isInfinite then .null else .number (.ofBinary64 number)

namespace Literal

def toJson : Literal → Json
  | null => .text "null"
  | typedNull => .text "typed_null"
  | bool value => .record [("bool", .bool value)]
  | integer value => .record [("integer", .int value.toInt)]
  | float value => .record [("float", value.toJson)]
  | string value => .record [("string", .text value)]

/-- An integer of 64 bits. -/
def int64? (json : Json) : Option Int64 :=
  json.int?.bind fun value =>
    if Int64.minValue.toInt ≤ value ∧ value ≤ Int64.maxValue.toInt then some (.ofInt value)
    else none

/-- A double, which may be written as an integer. -/
def binary64? : Json → Option Binary64
  | .number numeral => numeral.toBinary64?
  | _ => none

def ofJson? (json : Json) : Option Literal := do
  let (name, content) ← json.choice? .checked
  match name, content with
  | "null", content => if Json.isBare .checked content then some null else none
  | "typed_null", content => if Json.isBare .checked content then some typedNull else none
  | "bool", some content => content.bool?.map bool
  | "integer", some content => (int64? content).map integer
  | "float", some content => (binary64? content).map float
  | "string", some content => content.text?.map string
  | _, _ => none

end Literal

namespace BinaryOp

def label : BinaryOp → String
  | add => "add"
  | subtract => "subtract"
  | multiply => "multiply"
  | divide => "divide"
  | remainder => "remainder"
  | equal => "equal"
  | notEqual => "not_equal"
  | less => "less"
  | lessOrEqual => "less_or_equal"
  | greater => "greater"
  | greaterOrEqual => "greater_or_equal"
  | and => "and"
  | or => "or"

def all : List BinaryOp :=
  [add, subtract, multiply, divide, remainder, equal, notEqual, less, lessOrEqual, greater,
    greaterOrEqual, and, or]

def toJson (op : BinaryOp) : Json := .text op.label

def ofJson? : Json.Reading → Json → Option BinaryOp := Json.variant? all label

end BinaryOp

namespace CallStyle

def label : CallStyle → String
  | static => "static"
  | extension => "extension"
  | method => "instance"

def toJson (style : CallStyle) : Json := .text style.label

def ofJson? : Json.Reading → Json → Option CallStyle :=
  Json.variant? [static, extension, method] label

end CallStyle

inductive ExprKind where
  | literal
  | parameter
  | member
  | call
  | construct
  | conditional
  | coalesce
  | binary
  | raise
  | projection
  | guarded
deriving DecidableEq

namespace ExprKind

def label : ExprKind → String
  | literal => "literal"
  | parameter => "parameter"
  | member => "member"
  | call => "call"
  | construct => "new"
  | conditional => "conditional"
  | coalesce => "coalesce"
  | binary => "binary"
  | raise => "throw"
  | projection => "projection"
  | guarded => "optional_guard"

/-- All kinds, in the order of their positions. -/
def all : List ExprKind :=
  [literal, parameter, member, call, construct, conditional, coalesce, binary, raise, projection,
    guarded]

def ofLabel? (name : String) : Option ExprKind := all.find? fun kind => kind.label == name

def ofJson? (json : Json) : Option ExprKind := json.text?.bind ofLabel?

/-- The kind of an inner expression, by name or by position. -/
def ofInnerJson? (json : Json) : Option ExprKind :=
  match json with
  | .string (some name) => ofLabel? name
  | json => (json.natBelow? all.length).bind fun position => all[position]?

end ExprKind

namespace Expr

def kind : Expr → ExprKind
  | literal .. => .literal
  | parameter .. => .parameter
  | member .. => .member
  | call .. => .call
  | construct .. => .construct
  | conditional .. => .conditional
  | coalesce .. => .coalesce
  | binary .. => .binary
  | raise .. => .raise
  | projection .. => .projection
  | guarded .. => .guarded

/-- An expression in object form, with its kind first. -/
def tagged (kind : ExprKind) (members : List (String × Json)) : Json :=
  .record (("kind", .text kind.label) :: members)

mutual

/-- The written form of an expression. -/
def toJson (expr : Expr) : Json :=
  match expr with
  | literal value type => tagged .literal [("value", value.toJson), ("ty", type.toJson)]
  | parameter name type => tagged .parameter [("name", .text name), ("ty", type.toJson)]
  | member receiver name optional type =>
    tagged .member
      [("receiver", receiver.toJson), ("member", .text name), ("optional", .bool optional),
        ("ty", type.toJson)]
  | call target style receiver arguments optional type =>
    tagged .call
      [("target", target.toJson), ("style", style.toJson),
        ("receiver", match receiver with
          | none => .null
          | some receiver => receiver.toJson),
        ("arguments", .array (toJsonAll arguments)), ("optional", .bool optional),
        ("ty", type.toJson)]
  | construct type arguments initializers =>
    tagged .construct
      [("ty", type.toJson), ("arguments", .array (toJsonAll arguments)),
        ("initializers", .array (toJsonInitializers initializers))]
  | conditional condition whenTrue whenFalse type =>
    tagged .conditional
      [("condition", condition.toJson), ("when_true", whenTrue.toJson),
        ("when_false", whenFalse.toJson), ("ty", type.toJson)]
  | coalesce left right type =>
    tagged .coalesce [("left", left.toJson), ("right", right.toJson), ("ty", type.toJson)]
  | binary op left right type =>
    tagged .binary
      [("op", op.toJson), ("left", left.toJson), ("right", right.toJson), ("ty", type.toJson)]
  | raise exception type =>
    tagged .raise [("exception", exception.toJson), ("ty", type.toJson)]
  | projection source element transform materialize type =>
    tagged .projection
      [("source", source.toJson), ("element", .text element), ("transform", transform.toJson),
        ("materialize", .nullable .text materialize), ("ty", type.toJson)]
  | guarded receiver body type =>
    tagged .guarded
      [("receiver", receiver.toJson), ("body", body.toJson), ("ty", type.toJson)]
termination_by structural expr

@[inherit_doc toJson]
def toJsonAll (exprs : List Expr) : List Json :=
  match exprs with
  | [] => []
  | first :: rest => first.toJson :: toJsonAll rest
termination_by structural exprs

@[inherit_doc toJson]
def toJsonInitializers (initializers : List Initializer) : List Json :=
  match initializers with
  | [] => []
  | ⟨name, declared, value⟩ :: rest =>
    .record
      [("member", .text name), ("member_ty", declared.toJson), ("value", value.toJson)] ::
      toJsonInitializers rest
termination_by structural initializers

end

/-- Separates the kind of an expression from the rest of it. -/
def untagged? : Json → Option (Json × Json)
  | .array (tag :: rest) => some (tag, .array rest)
  | .object members =>
    match members.partition fun (key, _) => key == some "kind" with
    | ([(_, tag)], rest) => some (tag, .object rest)
    | _ => none
  | _ => none

def list? {α : Type} (decode : Json → Option α) : Json → Option (List α) :=
  Json.list? (fun _ => decode) .checked

def initializer? (child : Json → Option Expr) (json : Json) : Option Initializer := do
  let fields ← json.fields? ["member", "member_ty", "value"]
  return .mk (← fields.required "member" Json.text?)
    (← fields.required "member_ty" (TypeRef.ofJson? .checked))
    (← fields.required "value" child)

/-- Takes an expression of a known kind apart, given how to read the expressions in
it. -/
def node? (child : Json → Option Expr) (kind : ExprKind) (json : Json) : Option Expr :=
  let type? := TypeRef.ofJson? .checked
  match kind with
  | .literal => do
    let fields ← json.fields? ["value", "ty"]
    return literal (← fields.required "value" Literal.ofJson?) (← fields.required "ty" type?)
  | .parameter => do
    let fields ← json.fields? ["name", "ty"]
    return parameter (← fields.required "name" Json.text?) (← fields.required "ty" type?)
  | .member => do
    let fields ← json.fields? ["receiver", "member", "optional", "ty"]
    return member (← fields.required "receiver" child) (← fields.required "member" Json.text?)
      (← fields.withDefault "optional" false Json.bool?) (← fields.required "ty" type?)
  | .call => do
    let fields ← json.fields? ["target", "style", "receiver", "arguments", "optional", "ty"]
    return call (← fields.required "target" (CallableId.ofJson? .checked))
      (← fields.withDefault "style" .static (CallStyle.ofJson? .checked))
      (← fields.nullable "receiver" child) (← fields.withDefault "arguments" [] (list? child))
      (← fields.withDefault "optional" false Json.bool?) (← fields.required "ty" type?)
  | .construct => do
    let fields ← json.fields? ["ty", "arguments", "initializers"]
    return construct (← fields.required "ty" type?)
      (← fields.withDefault "arguments" [] (list? child))
      (← fields.withDefault "initializers" [] (list? (initializer? child)))
  | .conditional => do
    let fields ← json.fields? ["condition", "when_true", "when_false", "ty"]
    return conditional (← fields.required "condition" child)
      (← fields.required "when_true" child) (← fields.required "when_false" child)
      (← fields.required "ty" type?)
  | .coalesce => do
    let fields ← json.fields? ["left", "right", "ty"]
    return coalesce (← fields.required "left" child) (← fields.required "right" child)
      (← fields.required "ty" type?)
  | .binary => do
    let fields ← json.fields? ["op", "left", "right", "ty"]
    return binary (← fields.required "op" (BinaryOp.ofJson? .checked))
      (← fields.required "left" child) (← fields.required "right" child)
      (← fields.required "ty" type?)
  | .raise => do
    let fields ← json.fields? ["exception", "ty"]
    return raise (← fields.required "exception" child) (← fields.required "ty" type?)
  | .projection => do
    let fields ← json.fields? ["source", "element", "transform", "materialize", "ty"]
    return projection (← fields.required "source" child)
      (← fields.required "element" Json.text?) (← fields.required "transform" child)
      (← fields.nullable "materialize" Json.text?) (← fields.required "ty" type?)
  | .guarded => do
    let fields ← json.fields? ["receiver", "body", "ty"]
    return guarded (← fields.required "receiver" child) (← fields.required "body" child)
      (← fields.required "ty" type?)

/-- An expression inside another one, which nests within the given levels. -/
def ofInnerJson? : Nat → Json → Option Expr
  | 0, _ => none
  | levels + 1, json => do
    let (tag, rest) ← untagged? json
    let kind ← ExprKind.ofInnerJson? tag
    node? (ofInnerJson? levels) kind rest

def ofJson? (reading : Json.Reading) (json : Json) : Option Expr :=
  if json.isStrict reading.levels then do
    let (tag, rest) ← untagged? json
    let kind ← ExprKind.ofJson? tag
    node? (ofInnerJson? reading.levels) kind rest
  else
    none

end Expr

end MappingForms
