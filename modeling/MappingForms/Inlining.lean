import MappingForms.CallGraph.Cycles
import MappingForms.Expr.Substitution

/-!
Contract: calls of safe callables give way to the bodies of the callables.

Owns: which calls are expanded, the expansion of one call, and the pass over an
expression.

A call is expanded if its target is a known and safe callable, it is no call of a
method of the receiver itself, and it has as many actual arguments as the callable
has parameters; a receiver counts as the first argument. An optional call becomes a
guard on its receiver, and stays as it is where optional links are kept.

Bodies are themselves expanded before they are put in place. Safe callables call
each other without cycles, so expansions nest at most as deep as there are
callables.

An expanded body is computed when a call first needs it and is then kept, so a
callable that is called many times is expanded once.
-/

set_option autoImplicit false

namespace MappingForms

/-- What takes the place of a call: the names to bind, and the body, which is
computed when it is first needed. -/
structure Template where
  parameters : List String
  body : Thunk Expr

namespace Callable

/-- The callable with the given body in place of its own. -/
def template (callable : Callable) (body : Thunk Expr) : Template where
  parameters := callable.parameters.map (·.name)
  body := body

end Callable

/-- What the pass knows about its batch and its specification. -/
structure Inliner where
  callables : Callables
  cycles : CycleReport
  policy : LinkPolicy

namespace Inliner

/-- The template that takes the place of a call, if the call is eligible. -/
def callee? (inliner : Inliner) (templates : CallableId → Option Template) (target : CallableId)
    (style : CallStyle) (actuals : List Expr) (optional : Bool) : Option Template :=
  if style = .method ∨ inliner.cycles.isUnsafe target ∨
      (optional ∧ inliner.policy = .keep) then
    none
  else
    (templates target).filter fun template =>
      actuals.length == template.parameters.length

/-- Expands one call whose receiver and arguments are expanded already. -/
def expandCall (inliner : Inliner) (templates : CallableId → Option Template)
    (target : CallableId) (style : CallStyle) (receiver : Option Expr) (arguments : List Expr)
    (optional : Bool) (type : TypeRef) : Expr :=
  let actuals := receiver.toList ++ arguments
  let kept := .call target style receiver arguments optional type
  match inliner.callee? templates target style actuals optional with
  | none => kept
  | some template =>
    let body := template.body.get.substitute (Bindings.ofLists template.parameters actuals)
    match optional, receiver with
    | false, _ => body
    | true, some receiver => .guarded receiver body type
    | true, none => kept

mutual

/-- Expands every eligible call of an expression, innermost calls first. -/
def inlineWith (inliner : Inliner) (templates : CallableId → Option Template) : Expr → Expr
  | .literal value type => .literal value type
  | .parameter name type => .parameter name type
  | .member receiver name optional type =>
    .member (inliner.inlineWith templates receiver) name optional type
  | .call target style receiver arguments optional type =>
    inliner.expandCall templates target style
      (match receiver with
        | none => none
        | some receiver => some (inliner.inlineWith templates receiver))
      (inliner.inlineAllWith templates arguments) optional type
  | .construct type arguments initializers =>
    .construct type (inliner.inlineAllWith templates arguments)
      (inliner.inlineInitializersWith templates initializers)
  | .conditional condition whenTrue whenFalse type =>
    .conditional (inliner.inlineWith templates condition) (inliner.inlineWith templates whenTrue)
      (inliner.inlineWith templates whenFalse) type
  | .coalesce left right type =>
    .coalesce (inliner.inlineWith templates left) (inliner.inlineWith templates right) type
  | .binary op left right type =>
    .binary op (inliner.inlineWith templates left) (inliner.inlineWith templates right) type
  | .raise exception type => .raise (inliner.inlineWith templates exception) type
  | .projection source element transform materialize type =>
    .projection (inliner.inlineWith templates source) element
      (inliner.inlineWith templates transform) materialize type
  | .guarded receiver body type =>
    .guarded (inliner.inlineWith templates receiver) (inliner.inlineWith templates body) type
termination_by structural expr => expr

@[inherit_doc inlineWith]
def inlineAllWith (inliner : Inliner) (templates : CallableId → Option Template) :
    List Expr → List Expr
  | [] => []
  | first :: rest => inliner.inlineWith templates first :: inliner.inlineAllWith templates rest
termination_by structural exprs => exprs

@[inherit_doc inlineWith]
def inlineInitializersWith (inliner : Inliner) (templates : CallableId → Option Template) :
    List Initializer → List Initializer
  | [] => []
  | ⟨name, declared, value⟩ :: rest =>
    ⟨name, declared, inliner.inlineWith templates value⟩ ::
      inliner.inlineInitializersWith templates rest
termination_by structural initializers => initializers

end

/-- The callables with their calls expanded, up to a depth of nested expansions. -/
def templates (inliner : Inliner) : Nat → Thunk (Table CallableId Template)
  | 0 => Thunk.mk fun _ =>
    inliner.callables.mapValues fun callable => callable.template (Thunk.pure callable.body)
  | depth + 1 =>
    let nested := inliner.templates depth
    Thunk.mk fun _ =>
      inliner.callables.mapValues fun callable =>
        callable.template <| Thunk.mk fun _ =>
          inliner.inlineWith (fun target => nested.get.get? target) callable.body

def inline (inliner : Inliner) (expr : Expr) : Expr :=
  let templates := inliner.templates inliner.callables.size
  inliner.inlineWith (fun target => templates.get.get? target) expr

end Inliner

namespace Callables

def inliner (callables : Callables) (policy : LinkPolicy) : Inliner where
  callables := callables
  cycles := (CallGraph.ofCallables callables).detectCycles
  policy := policy

end Callables

end MappingForms
