import Mathlib.Logic.Relation
import MappingForms.Proofs.Inlining.Termination

/-!
Contract: keeping expanded bodies makes no difference.

Owns: the pass with the kept bodies as a state of its own, the calls that it makes of itself with
the state at each of them, the soundness of that state, and the law that a sequence of passes
over one state gives what the pass without a state gives.

A body is kept in the middle of the work on another expression, and the rest of that work reads
it. The state is sound if every kept body is what the pass without a state makes of the body of
its callable. No part of the work needs more of the state than that, and each leaves it sound.
-/

set_option autoImplicit false

namespace MappingForms

namespace Inliner

/-! ## The pass with a state -/

/-- The bodies that are kept, by the identities of their callables. -/
abbrev KeptBodies := Table CallableId Expr

/-- Work that may look up kept bodies and keep more of them. -/
abbrev Keeping := StateM KeptBodies

/-- The body that is kept under an identity. If there is none, it is the result of some work, and
is kept from then on. -/
def keptOr (id : CallableId) (work : Keeping Expr) : Keeping Expr := do
  match (← get).get? id with
  | some body => return body
  | none =>
    let body ← work
    modify (·.insert id body)
    return body

private theorem run_keptOr_of_kept {id : CallableId} {kept : KeptBodies} {body : Expr}
    (found : kept.get? id = some body) (work : Keeping Expr) :
    (keptOr id work).run kept = (body, kept) := by
  unfold keptOr
  simp only [StateT.run_bind, StateT.run_get, pure_bind, found]
  rfl

private theorem run_keptOr_of_missing {id : CallableId} {kept : KeptBodies}
    (missing : kept.get? id = none) (work : Keeping Expr) :
    (keptOr id work).run kept =
      ((work.run kept).1, (work.run kept).2.insert id (work.run kept).1) := by
  unfold keptOr
  simp only [StateT.run_bind, StateT.run_get, pure_bind, missing]
  rfl

/-- The body is kept afterwards, wherever it came from. -/
theorem get?_run_keptOr (id : CallableId) (work : Keeping Expr) (kept : KeptBodies) :
    ((keptOr id work).run kept).2.get? id = some ((keptOr id work).run kept).1 := by
  cases found : kept.get? id with
  | some body =>
    rw [run_keptOr_of_kept found]
    exact found
  | none =>
    rw [run_keptOr_of_missing found]
    exact (Table.get?_insert ..).trans (if_pos rfl)

/-- Expands every eligible call of an expression, innermost calls first. The expanded body of a
callable is taken from the kept bodies, or is expanded there and then and kept. -/
def inlineKeeping (callables : Callables) (policy : LinkPolicy) (expr : Expr) : Keeping Expr := do
  let children ← expr.children.attach.mapM fun child => inlineKeeping callables policy child.1
  let rebuilt := expr.withChildren children
  match expands : (callables.inliner policy).expands? expr with
  | none => return rebuilt
  | some callable =>
    have : Enters (callables.inliner policy) callable.body expr := .body expands
    let body ← keptOr callable.id (inlineKeeping callables policy callable.body)
    return (callables.inliner policy).expandNode
      ((callables.inliner policy).bodies fun _ => body) rebuilt
termination_by (wellFounded_enters callables policy).wrap expr
decreasing_by
  · exact .child child.2
  · assumption

variable (callables : Callables) (policy : LinkPolicy)

def keptAfter (exprs : List Expr) (kept : KeptBodies) : KeptBodies :=
  ((exprs.mapM (inlineKeeping callables policy)).run kept).2

/-- A call that the pass makes of itself: the work on an expression in a state leads to the work
on another one in the state that is reached by then. -/
inductive Reenters : Expr × KeptBodies → Expr × KeptBodies → Prop where
  /-- The children are worked on in order. -/
  | child {expr child : Expr} {before after : List Expr} {kept : KeptBodies}
      (listed : expr.children = before ++ child :: after) :
      Reenters (expr, kept) (child, keptAfter callables policy before kept)
  /-- After all children, the body of the callable is worked on unless it is kept. -/
  | body {expr : Expr} {callable : Callable} {kept : KeptBodies}
      (expands : (callables.inliner policy).expands? expr = some callable)
      (missing : (keptAfter callables policy expr.children kept).get? callable.id = none) :
      Reenters (expr, kept) (callable.body, keptAfter callables policy expr.children kept)

/-! ## Sound states -/

/-- Every kept body is what the pass without a state makes of the body of its callable. -/
def Sound (kept : KeptBodies) : Prop :=
  ∀ id body, kept.get? id = some body →
    ∃ callable, callables.get? id = some callable ∧
      body = (callables.inliner policy).inline callable.body

/-- Work that gives a result from every sound state, and leaves the state sound. -/
def Yields {α : Type} (work : Keeping α) (result : α) : Prop :=
  ∀ kept, Sound callables policy kept →
    (work.run kept).1 = result ∧ Sound callables policy (work.run kept).2

variable {callables policy}

/-- Nothing is kept at first. -/
theorem sound_empty : Sound callables policy ∅ := by
  intro id body found
  cases found

/-- The expanded body of a callable may be kept under its identity. -/
theorem Sound.insert {kept : KeptBodies} (sound : Sound callables policy kept) {id : CallableId}
    {callable : Callable} (look : callables.get? id = some callable) :
    Sound callables policy
      (kept.insert id ((callables.inliner policy).inline callable.body)) := by
  intro sought body found
  rw [Table.get?_insert] at found
  split at found
  · rename_i same
    cases found
    exact ⟨callable, same ▸ look, rfl⟩
  · exact sound sought body found

namespace Yields

variable {α β : Type}

theorem pure (result : α) : Yields callables policy (pure result) result :=
  fun _ sound => ⟨rfl, sound⟩

/-- Work after work yields the second result from every sound state. -/
theorem bind {work : Keeping α} {next : α → Keeping β} {first : α} {last : β}
    (yields : Yields callables policy work first)
    (nextYields : Yields callables policy (next first) last) :
    Yields callables policy (work >>= next) last := by
  intro kept sound
  obtain ⟨firstEq, stillSound⟩ := yields kept sound
  have nextStep := nextYields _ stillSound
  rw [← firstEq] at nextStep
  exact nextStep

/-- Work on a list yields the list of the results. -/
theorem mapM {work : Expr → Keeping Expr} {result : Expr → Expr} {exprs : List Expr}
    (each : ∀ expr ∈ exprs, Yields callables policy (work expr) (result expr)) :
    Yields callables policy (exprs.mapM work) (exprs.map result) := by
  induction exprs with
  | nil => exact pure []
  | cons first rest inductionHypothesis =>
    rw [List.forall_mem_cons] at each
    rw [List.mapM_cons, List.map_cons]
    exact each.1.bind ((inductionHypothesis each.2).bind (pure _))

/-- A body that is missing is expanded and kept, and one that is kept is the same. -/
theorem keptOr {id : CallableId} {callable : Callable} {work : Keeping Expr}
    (look : callables.get? id = some callable)
    (yields : Yields callables policy work ((callables.inliner policy).inline callable.body)) :
    Yields callables policy (keptOr id work)
      ((callables.inliner policy).inline callable.body) := by
  intro kept sound
  cases found : kept.get? id with
  | some body =>
    obtain ⟨known, knownLook, bodyEq⟩ := sound id body found
    obtain rfl : callable = known := Option.some.inj (look.symm.trans knownLook)
    rw [run_keptOr_of_kept found]
    exact ⟨bodyEq, sound⟩
  | none =>
    obtain ⟨bodyEq, stillSound⟩ := yields kept sound
    rw [run_keptOr_of_missing found]
    exact ⟨bodyEq, bodyEq ▸ stillSound.insert look⟩

end Yields

/-! ## Results of the pass -/

private theorem mapM_attach_inlineKeeping (exprs : List Expr) :
    (exprs.attach.mapM fun child => inlineKeeping callables policy child.1) =
      exprs.mapM (inlineKeeping callables policy) := by
  conv_rhs => rw [← List.attach_map_subtype_val exprs, List.mapM_map]
  rfl

private theorem inlineKeeping_of_not_expands {expr : Expr}
    (stays : (callables.inliner policy).expands? expr = none) :
    inlineKeeping callables policy expr =
      expr.children.mapM (inlineKeeping callables policy) >>= fun children =>
        pure (expr.withChildren children) := by
  rw [inlineKeeping, mapM_attach_inlineKeeping]
  refine bind_congr fun children => ?_
  split
  · rfl
  · rename_i expands
    rw [stays] at expands
    cases expands

private theorem inlineKeeping_of_expands {expr : Expr} {callable : Callable}
    (expands : (callables.inliner policy).expands? expr = some callable) :
    inlineKeeping callables policy expr =
      expr.children.mapM (inlineKeeping callables policy) >>= fun children =>
        keptOr callable.id (inlineKeeping callables policy callable.body) >>= fun body =>
          pure ((callables.inliner policy).expandNode
            ((callables.inliner policy).bodies fun _ => body) (expr.withChildren children)) := by
  rw [inlineKeeping, mapM_attach_inlineKeeping]
  refine bind_congr fun children => ?_
  split
  · rename_i stays
    rw [stays] at expands
    cases expands
  · rename_i found
    obtain rfl : callable = _ := Option.some.inj (expands.symm.trans found)
    rfl

/-- From every sound state the pass gives what it gives without a state. -/
theorem yields_inlineKeeping (callables : Callables) (policy : LinkPolicy) (expr : Expr) :
    Yields callables policy (inlineKeeping callables policy expr)
      ((callables.inliner policy).inline expr) := by
  induction expr using (wellFounded_enters callables policy).induction with
  | _ expr inductionHypothesis =>
    have childrenYield : Yields callables policy
        (expr.children.mapM (inlineKeeping callables policy))
        (expr.children.map (callables.inliner policy).inline) :=
      .mapM fun child listed => inductionHypothesis child (.child listed)
    rw [inline_eq_expandNode]
    cases expands : (callables.inliner policy).expands? expr with
    | none =>
      have stays := (expands?_mapChildren _ (callables.inliner policy).inline expr).trans expands
      rw [inlineKeeping_of_not_expands expands, expandNode_of_not_expands _ stays,
        ← Expr.withChildren_map]
      exact childrenYield.bind (.pure _)
    | some callable =>
      obtain ⟨-, look, -⟩ := safe_of_expands expands
      have bodyYields := (inductionHypothesis callable.body (.body expands)).keptOr look
      have rebuiltExpands :=
        (expands?_mapChildren _ (callables.inliner policy).inline expr).trans expands
      rw [inlineKeeping_of_expands expands, expandNode_of_expands _ rebuiltExpands,
        ← Expr.withChildren_map]
      exact childrenYield.bind (bodyYields.bind (.pure _))

private theorem Sound.keptAfter {kept : KeptBodies} (sound : Sound callables policy kept)
    (exprs : List Expr) : Sound callables policy (keptAfter callables policy exprs kept) :=
  (Yields.mapM (fun expr _ => yields_inlineKeeping callables policy expr) kept sound).2

/-- After the work on a call that is expanded, the expanded body of its callable is kept. -/
theorem get?_run_inlineKeeping {expr : Expr} {callable : Callable}
    (expands : (callables.inliner policy).expands? expr = some callable) {kept : KeptBodies}
    (sound : Sound callables policy kept) :
    ((inlineKeeping callables policy expr).run kept).2.get? callable.id =
      some ((callables.inliner policy).inline callable.body) := by
  obtain ⟨-, look, -⟩ := safe_of_expands expands
  have bodyYields := (yields_inlineKeeping callables policy callable.body).keptOr look
  rw [inlineKeeping_of_expands expands]
  refine (get?_run_keptOr ..).trans (congrArg some (bodyYields _ ?_).1)
  exact sound.keptAfter expr.children

/-- No call that the pass makes of itself finds a state that is not sound. -/
theorem Sound.of_reenters {outer inner : Expr × KeptBodies} (sound : Sound callables policy outer.2)
    (reenters : Relation.ReflTransGen (Reenters callables policy) outer inner) :
    Sound callables policy inner.2 := by
  induction reenters with
  | refl => exact sound
  | tail _ last soundBefore =>
    cases last with
    | child listed => exact soundBefore.keptAfter _
    | body expands missing => exact soundBefore.keptAfter _

/-- Keeping expanded bodies cannot be seen in any result.

A sequence of passes over one state, which starts without kept bodies, gives for each expression
what the pass without a state gives. The same holds of every call that the pass makes of itself,
for children and for bodies, however deep and however late in the sequence: before and after it,
every kept body is what the pass without a state makes of the body of its callable. After the work
on a call that is expanded, the body of its callable is among them. -/
theorem kept_bodies_are_invisible (callables : Callables) (policy : LinkPolicy)
    (exprs : List Expr) :
    ((exprs.mapM (inlineKeeping callables policy)).run ∅).1 =
      exprs.map (callables.inliner policy).inline ∧
    ∀ earlier expr later, exprs = earlier ++ expr :: later → ∀ inner kept,
      Relation.ReflTransGen (Reenters callables policy)
        (expr, keptAfter callables policy earlier ∅) (inner, kept) →
      Sound callables policy kept ∧
      ((inlineKeeping callables policy inner).run kept).1 =
        (callables.inliner policy).inline inner ∧
      Sound callables policy ((inlineKeeping callables policy inner).run kept).2 ∧
      ∀ callable, (callables.inliner policy).expands? inner = some callable →
        ((inlineKeeping callables policy inner).run kept).2.get? callable.id =
          some ((callables.inliner policy).inline callable.body) := by
  have sequenceYields : Yields callables policy (exprs.mapM (inlineKeeping callables policy))
      (exprs.map (callables.inliner policy).inline) :=
    .mapM fun expr _ => yields_inlineKeeping callables policy expr
  refine ⟨(sequenceYields ∅ sound_empty).1, ?_⟩
  intro earlier expr later _ inner kept reenters
  have soundBefore : Sound callables policy (keptAfter callables policy earlier ∅) :=
    sound_empty.keptAfter earlier
  have sound : Sound callables policy kept := soundBefore.of_reenters reenters
  obtain ⟨resultEq, stillSound⟩ := yields_inlineKeeping callables policy inner kept sound
  exact ⟨sound, resultEq, stillSound, fun _ expands => get?_run_inlineKeeping expands sound⟩

end Inliner

end MappingForms
