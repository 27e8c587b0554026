import MappingForms.PropertyPath
import MappingForms.Source.Expression

/-!
Contract: the statements of an update procedure.

Owns: the statement type, the list of a statement with all statements nested in it,
and the layout of statements in generated source.
-/

set_option autoImplicit false

namespace MappingForms

inductive Statement where
  /-- Returns the result if one of the conditions holds. -/
  | returnIf (conditions : List Expr) (result : PropertyPath)
  /-- Stores a new object at the path if there is none. -/
  | ensureCreated (path : PropertyPath) (creation : Expr)
  | assign (path : PropertyPath) (value : Expr)
  | branch (condition : Expr) (thenDo otherwise : List Statement)
  | raise (exception : Expr)
  | comment (text : String)
  | finish (path : PropertyPath)

namespace Statement

mutual

/-- A statement followed by the statements nested in it, in order. -/
def nodes (statement : Statement) : List Statement :=
  statement :: match statement with
    | branch _ thenDo otherwise => nodesOfAll thenDo ++ nodesOfAll otherwise
    | _ => []
termination_by structural statement

@[inherit_doc nodes]
def nodesOfAll : List Statement → List Statement
  | [] => []
  | first :: rest => first.nodes ++ nodesOfAll rest
termination_by structural statements => statements

end

def count (statement : Statement) : Nat := statement.nodes.length

private def anyOf : List Expr → Option Expr
  | [] => none
  | first :: rest =>
    some (rest.foldl (fun left right => .binary .or left right .boolean) first)

mutual

def layout (context : NullableContext) : Statement → Document
  | returnIf conditions result =>
    let condition := match anyOf conditions with
      | none => .text "false"
      | some condition => Source.operand context condition
    .concat ["if (", condition, ")",
      .block (.concat [.line, "return ", result.display, ";"])]
  | ensureCreated path creation =>
    .concat ["if (", path.display, " == null)",
      .block (.concat [.line, path.display, " = ", Source.operand context creation, ";"])]
  | assign path value => .concat [path.display, " = ", Source.operand context value, ";"]
  | branch condition thenDo otherwise =>
    let head : Document :=
      .concat ["if (", Source.operand context condition, ")",
        .block (.concat (layoutAll context thenDo))]
    if otherwise.isEmpty then head
    else .concat [head, .line, "else", .block (.concat (layoutAll context otherwise))]
  | raise exception => .concat ["throw ", Source.operand context exception, ";"]
  | comment text => .concat ["// ", text]
  | finish path => .concat ["return ", path.display, ";"]
termination_by structural statement => statement

/-- Every statement on a line of its own, which it starts. -/
def layoutAll (context : NullableContext) : List Statement → List Document
  | [] => []
  | first :: rest => .concat [.line, first.layout context] :: layoutAll context rest
termination_by structural statements => statements

end

def block (context : NullableContext) (statements : List Statement) : Document :=
  .concat (layoutAll context statements)

end Statement

end MappingForms
