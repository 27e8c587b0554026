import MappingForms.Proofs.Expr.Nameless

/-!
Contract: fresh names are found, and renaming to a fresh name captures nothing.

Owns: the replacement of a free parameter in a nameless form, and the law that renaming a
parameter to a name that is not in use is this replacement.

A projection that binds the old name ends the renaming, and below it the nameless form has no
free parameter of that name either. No projection binds the new name, so the renamed occurrences
stay free wherever they stand.
-/

set_option autoImplicit false

namespace MappingForms

namespace Nameless

mutual

/-- Puts a free parameter of another name in place of every free parameter of one name. -/
def renameFree (old new : String) : Nameless → Nameless
  | bound index type => bound index type
  | free name type => free (if name = old then new else name) type
  | projection source transform materialize type =>
    projection (source.renameFree old new) (transform.renameFree old new) materialize type
  | node head children => node head (renameFreeAll old new children)
termination_by structural form => form

@[inherit_doc renameFree]
def renameFreeAll (old new : String) : List Nameless → List Nameless
  | [] => []
  | first :: rest => first.renameFree old new :: renameFreeAll old new rest
termination_by structural forms => forms

end

private theorem renameFreeAll_eq_map (old new : String) (forms : List Nameless) :
    renameFreeAll old new forms = forms.map (renameFree old new) := by
  induction forms with
  | nil => rfl
  | cons first rest inductionHypothesis =>
    rw [renameFreeAll, inductionHypothesis, List.map_cons]

end Nameless

namespace Expr

/-- A name that is bound around an expression is no free parameter of its nameless form. -/
theorem renameFree_nameless_of_bound {expr : Expr} {old : String} {scope : List String}
    (isBound : old ∈ scope) (new : String) :
    (expr.nameless scope).renameFree old new = expr.nameless scope := by
  induction expr using induction_on_scope generalizing scope with
  | parameter name type =>
    rw [nameless]
    cases place : scope.idxOf? name with
    | some index => rfl
    | none =>
      have other : name ≠ old := by
        rintro rfl
        exact List.idxOf?_eq_none_iff.1 place isBound
      rw [Nameless.renameFree, if_neg other]
  | projection source element transform materialize type sourceHypothesis transformHypothesis =>
    rw [nameless, Nameless.renameFree, sourceHypothesis isBound,
      transformHypothesis transform rfl (List.mem_cons_of_mem _ isBound)]
  | neutral expr neutral inductionHypothesis =>
    rw [nameless_of_neutral neutral, Nameless.renameFree, Nameless.renameFreeAll_eq_map,
      List.map_map]
    refine congrArg _ (List.map_congr_left fun child listed => ?_)
    exact inductionHypothesis child listed isBound

/-- Inside of projections that bind neither name, renaming to a name that is not in use replaces
the free parameter and does nothing else. -/
theorem nameless_rename_of_free {expr : Expr} {old new : String} {scope : List String}
    (fresh : new ∉ expr.names) (oldFree : old ∉ scope) (newFree : new ∉ scope) :
    (expr.rename old new).nameless scope = (expr.nameless scope).renameFree old new := by
  induction expr using induction_on_scope generalizing scope with
  | parameter name type =>
    rw [rename, nameless, nameless]
    by_cases isOld : name = old
    · rw [if_pos isOld, isOld, List.idxOf?_eq_none_iff.2 newFree,
        List.idxOf?_eq_none_iff.2 oldFree, Nameless.renameFree, if_pos rfl]
    · rw [if_neg isOld]
      cases scope.idxOf? name with
      | some index => rfl
      | none => rw [Nameless.renameFree, if_neg isOld]
  | projection source element transform materialize type sourceHypothesis transformHypothesis =>
    have sourceEq := sourceHypothesis
      (fun used => fresh (mem_names_of_mem_children List.mem_cons_self used)) oldFree newFree
    have transformEq :
        (if element = old then transform else transform.rename old new).nameless
            (element :: scope) =
          (transform.nameless (element :: scope)).renameFree old new := by
      by_cases shadowed : element = old
      · rw [if_pos shadowed, renameFree_nameless_of_bound (shadowed ▸ List.mem_cons_self)]
      · have notNew : element ≠ new := by
          rintro rfl
          exact fresh (element_mem_names ..)
        rw [if_neg shadowed]
        refine transformHypothesis transform rfl ?_ ?_ ?_
        · intro used
          exact fresh
            (mem_names_of_mem_children (List.mem_cons_of_mem _ List.mem_cons_self) used)
        · exact List.not_mem_cons_of_ne_of_not_mem (Ne.symm shadowed) oldFree
        · exact List.not_mem_cons_of_ne_of_not_mem (Ne.symm notNew) newFree
    rw [rename, nameless, nameless, Nameless.renameFree, sourceEq, transformEq]
  | neutral expr neutral inductionHypothesis =>
    rw [rename_of_neutral neutral, nameless_of_neutral neutral,
      nameless_of_neutral ((isNeutral_mapChildren _ expr).trans neutral), head_mapChildren,
      children_mapChildren, List.map_map, Nameless.renameFree, Nameless.renameFreeAll_eq_map,
      List.map_map]
    refine congrArg _ (List.map_congr_left fun child listed => ?_)
    exact inductionHypothesis child listed
      (fun used => fresh (mem_names_of_mem_children listed used)) oldFree newFree

/-- Fresh names are found and are fresh, and renaming to a fresh name captures nothing.

The search tries the base with the numbers from 1 on. It ends at the first name that is not to be
avoided, after at most one more candidate than there are different names to avoid. Its number has
32 bits if the number of these candidates has. Renaming a parameter to a name that is not in use
replaces its free occurrences in the nameless form, and changes nothing else there. -/
theorem freshName_found_and_rename_safe (base : String) (avoid : List String) (expr : Expr)
    (old new : String) :
    (∃ number, 0 < number ∧ number ≤ avoid.toFinset.card + 1 ∧
      (avoid.toFinset.card + 1 < UInt32.size → number.toUInt32.toNat = number) ∧
      freshName base avoid = base ++ toString number ∧ freshName base avoid ∉ avoid ∧
      ∀ earlier, 0 < earlier → earlier < number → base ++ toString earlier ∈ avoid) ∧
    (new ∉ expr.names →
      (expr.rename old new).nameless [] = (expr.nameless []).renameFree old new) := by
  constructor
  · obtain ⟨number, found, unused, earlierUsed⟩ := freshName_first base avoid
    have few := count_le_of_used earlierUsed
    have bounded : number + 1 ≤ avoid.toFinset.card + 1 := by omega
    refine ⟨number + 1, Nat.succ_pos number, bounded,
      fun fits => UInt32.toNat_ofNat_of_lt' (Nat.lt_of_le_of_lt bounded fits),
      found, found ▸ unused, ?_⟩
    intro earlier positive lower
    have isUsed := earlierUsed (earlier - 1) (by omega)
    rwa [Nat.sub_add_cancel positive] at isUsed
  · intro fresh
    exact nameless_rename_of_free fresh List.not_mem_nil List.not_mem_nil

end Expr

namespace HiddenElement

open TypeRef (string strings)

/-- `items.Select(t => t).Select(u => u + t)` -/
def suffixed : Expr :=
  .projection
    (.projection (.parameter "items" strings) "t" (.parameter "t" string) none strings) "u"
    (.binary .add (.parameter "u" string) (.parameter "t" string) string) none strings

/-- The first `t` is bound and keeps its name, and the second one is free and is renamed. -/
theorem bound_occurrence_keeps_name :
    "t1" ∉ suffixed.names ∧
      suffixed.rename "t" "t1" =
        .projection
          (.projection (.parameter "items" strings) "t" (.parameter "t" string) none strings) "u"
          (.binary .add (.parameter "u" string) (.parameter "t1" string) string) none strings ∧
      (suffixed.rename "t" "t1").nameless [] = (suffixed.nameless []).renameFree "t" "t1" := by
  have fresh : "t1" ∉ suffixed.names := by decide
  exact ⟨fresh, rfl,
    (Expr.freshName_found_and_rename_safe "t" suffixed.names suffixed "t" "t1").2 fresh⟩

end HiddenElement

end MappingForms
