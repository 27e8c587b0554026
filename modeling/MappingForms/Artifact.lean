import MappingForms.Expr.Traversal
import MappingForms.UpdatePlan

/-!
Contract: the generated source files.

Owns: the artifact, its name, and the text of the expression form and the update
form inside the class that they extend.

The header names the version of the generator; all else in an artifact is a function
of its specification.
-/

set_option autoImplicit false

namespace MappingForms

def generatorVersion : String := "0.1.0"

inductive ArtifactKind where
  /-- The body as a lambda expression. -/
  | expression
  /-- The body as a procedure that updates a destination. -/
  | update
deriving DecidableEq

namespace ArtifactKind

/-- The kind as it stands in file names. -/
def fileLabel : ArtifactKind → String
  | expression => "Expression"
  | update => "Update"

/-- The kind as it stands in reports. -/
def reportName : ArtifactKind → String
  | expression => "expression"
  | update => "update"

end ArtifactKind

/-- One generated source file. -/
structure Artifact where
  name : String
  kind : ArtifactKind
  spec : CallableId
  text : String
deriving DecidableEq

namespace Artifact

def fileName (spec : Specification) (kind : ArtifactKind) : String :=
  spec.scope.name ++ "." ++ spec.id.name ++ "." ++ kind.fileLabel ++ ".g.cs"

/-- The header and the class around one generated member. -/
def frame (spec : Specification) (context : NullableContext) (member : Document) : Document :=
  let nullable := if context.isEnabled then "#nullable enable" else "#nullable disable"
  let namespaceLine : Document := match spec.scope.namespaceName with
    | some name => .concat ["namespace ", name, ";", .line, .line]
    | none => .nil
  let modifiers :=
    if spec.scope.isStatic then "static partial class " else "partial class "
  .concat
    ["// <auto-generated/>", .line,
      "// Generated by mapforge ", generatorVersion, .line,
      nullable, .line,
      .line,
      namespaceLine,
      modifiers, spec.scope.name, .line,
      "\x7b", .nest Document.indentWidth (.concat [.line, member]), .line,
      "\x7d", .line]

def ofMember (spec : Specification) (kind : ArtifactKind) (context : NullableContext)
    (member : Document) : Artifact where
  name := fileName spec kind
  kind := kind
  spec := spec.id
  text := (frame spec context member).render

/-- The method that returns the body as a lambda expression. -/
def expressionMember (spec : Specification) (body : Expr) (context : NullableContext) :
    Document :=
  .concat
    ["public static System.Linq.Expressions.Expression<System.Func<",
      spec.parameter.type.display context, ", ", spec.returnType.display context, ">> ",
      spec.id.name, "Expression()",
      .block (.concat
        [.line, "return ", spec.parameter.name, " => ", Source.expression context body, ";"])]

def updateMember (spec : Specification) (plan : UpdatePlan) (context : NullableContext) :
    Document :=
  let parameters := [plan.source, plan.dest].map fun parameter =>
    Document.concat [parameter.type.display context, " ", parameter.name]
  .concat
    ["public static ", spec.returnType.display context, " Update", spec.id.name, "(",
      .join parameters ", ", ")",
      .block (Statement.block context plan.statements)]

/-- The expression form of a transformed body. It is refused if optional links are to
be kept and there is one. -/
def ofExpression (spec : Specification) (body : Expr) (context : NullableContext) :
    Except FormError Artifact :=
  if spec.options.links = .keep ∧ body.containsOptionalLink then
    .error (.optionalLink spec.id)
  else
    .ok (ofMember spec .expression context (expressionMember spec body context))

def ofPlan (spec : Specification) (plan : UpdatePlan) (context : NullableContext) : Artifact :=
  ofMember spec .update context (updateMember spec plan context)

end Artifact

end MappingForms
