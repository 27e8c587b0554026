import MappingForms.Proofs.Batch.FormAccount
import MappingForms.Proofs.OutputDirectory

/-!
Contract: the file names of the artifacts of one batch, and what writing a batch loses.

Owns: the name that each artifact of a batch has, when two of them share a name, and the law that
a batch is written without loss exactly if artifacts that share a name hold the same text.

A file name repeats the scope, the method and the form. The parameter types of a method, which
its identity holds, do not stand in it: the overloads of a method share their file names, and of
their forms only the last one stays in a directory.
-/

set_option autoImplicit false

namespace MappingForms

namespace CallableId

/-- The method in its scope, as file names repeat it. -/
def qualifiedName (id : CallableId) : String := id.scope ++ "." ++ id.name

end CallableId

namespace Batch

open FilePath (IsPlain join)
open Workspace (perform)

/-- Each form of a specification gives at most one artifact. -/
theorem sublist_generateSpec (shared : Shared) (spec : Specification) :
    ((generateSpec shared spec).artifacts.map label).Sublist
      [formLabel spec .expression, formLabel spec .update] := by
  have due : (dueForms shared spec).Sublist ([.expression] ++ [.update]) := by
    unfold dueForms
    apply List.Sublist.append
    · split
      · exact .refl _
      · exact List.nil_sublist _
    · split
      · exact .refl _
      · exact List.nil_sublist _
  rw [(account_generateSpec shared spec).1]
  exact (List.filter_sublist.trans due).map (formLabel spec)

private theorem named_eq_iff {first second : String} {kind other : ArtifactKind} :
    first ++ "." ++ kind.fileLabel ++ ".g.cs" = second ++ "." ++ other.fileLabel ++ ".g.cs" ↔
      kind = other ∧ first = second := by
  constructor
  · intro same
    -- The kinds end in different letters, so the texts are compared from their ends.
    have fromEnd := congrArg (fun name => name.toList.reverse) same
    cases kind with
    | expression =>
      cases other with
      | expression => simpa [ArtifactKind.fileLabel, ← String.toList_inj] using fromEnd
      | update => simp [ArtifactKind.fileLabel] at fromEnd
    | update =>
      cases other with
      | expression => simp [ArtifactKind.fileLabel] at fromEnd
      | update => simpa [ArtifactKind.fileLabel, ← String.toList_inj] using fromEnd
  · rintro ⟨rfl, rfl⟩
    rfl

private theorem scopeName_of_mem_specs {unit : CompilationUnit} {defaults : Marker}
    {spec : Specification} (found : spec ∈ (unit.discover defaults).specs) :
    spec.scope.name = spec.id.scope := by
  rw [CompilationUnit.discover_eq] at found
  obtain ⟨⟨scope, method⟩, -, isSpec⟩ := List.mem_filterMap.1 found
  unfold Discovery.classify at isSpec
  split at isSpec
  · cases isSpec
  · split at isSpec
    · cases isSpec
    · cases isSpec
      rfl
    · cases isSpec

/-- The name of an artifact, by its kind and the identity of its specification. -/
theorem name_of_mem_generate {unit : CompilationUnit} {options : Options} {artifact : Artifact}
    (generated : artifact ∈ (generate unit options).artifacts) :
    ∃ spec ∈ (unit.discover options.defaults).specs, artifact.spec = spec.id ∧
      artifact.name =
        artifact.spec.qualifiedName ++ "." ++ artifact.kind.fileLabel ++ ".g.cs" := by
  rw [generate_artifacts] at generated
  obtain ⟨spec, found, ofSpec⟩ := List.mem_flatMap.1 generated
  have labelled : label artifact ∈ [formLabel spec .expression, formLabel spec .update] :=
    (sublist_generateSpec _ spec).subset (List.mem_map_of_mem ofSpec)
  have isForm : label artifact = formLabel spec artifact.kind := by
    rcases List.mem_pair.1 labelled with isExpression | isUpdate
    · have sameKind : artifact.kind = .expression := congrArg Prod.fst isExpression
      rw [isExpression, sameKind]
    · have sameKind : artifact.kind = .update := congrArg Prod.fst isUpdate
      rw [isUpdate, sameKind]
  have nameEq : artifact.name = Artifact.fileName spec artifact.kind :=
    congrArg (fun parts => parts.2.1) isForm
  have specEq : artifact.spec = spec.id := congrArg (fun parts => parts.2.2) isForm
  refine ⟨spec, found, specEq, ?_⟩
  rw [nameEq, specEq, Artifact.fileName, CallableId.qualifiedName, scopeName_of_mem_specs found]

private theorem sublist_names (shared : Shared) (spec : Specification) :
    ((generateSpec shared spec).artifacts.map (·.name)).Sublist
      [Artifact.fileName spec .expression, Artifact.fileName spec .update] := by
  have names := (sublist_generateSpec shared spec).map fun parts => parts.2.1
  rw [List.map_map] at names
  exact names

private theorem nodup_names_generateSpec (shared : Shared) (spec : Specification) :
    ((generateSpec shared spec).artifacts.map (·.name)).Nodup := by
  refine (sublist_names shared spec).nodup ?_
  have different : Artifact.fileName spec .expression ≠ Artifact.fileName spec .update := by
    intro same
    cases (named_eq_iff.1 same).1
  simpa using different

/-- Specifications with different qualified names share no file name. -/
theorem disjoint_names_generateSpec (shared : Shared) {first second : Specification}
    (different : first.scope.name ++ "." ++ first.id.name ≠
      second.scope.name ++ "." ++ second.id.name) :
    List.Disjoint ((generateSpec shared first).artifacts.map (·.name))
      ((generateSpec shared second).artifacts.map (·.name)) := by
  have nameOf : ∀ {spec name}, name ∈ (generateSpec shared spec).artifacts.map (·.name) →
      ∃ kind, name = Artifact.fileName spec kind := by
    intro spec name listed
    rcases List.mem_pair.1 ((sublist_names shared spec).subset listed) with same | same
    · exact ⟨_, same⟩
    · exact ⟨_, same⟩
  intro name inFirst inSecond
  obtain ⟨kind, rfl⟩ := nameOf inFirst
  obtain ⟨other, same⟩ := nameOf inSecond
  exact different (named_eq_iff.1 same).2

/-- Two artifacts of a batch share a name exactly if they hold the same form of methods with the
same qualified name, whatever parameters these methods take. -/
theorem name_eq_name_iff {unit : CompilationUnit} {options : Options} {first second : Artifact}
    (isFirst : first ∈ (generate unit options).artifacts)
    (isSecond : second ∈ (generate unit options).artifacts) :
    first.name = second.name ↔
      first.kind = second.kind ∧ first.spec.qualifiedName = second.spec.qualifiedName := by
  obtain ⟨-, -, -, firstName⟩ := name_of_mem_generate isFirst
  obtain ⟨-, -, -, secondName⟩ := name_of_mem_generate isSecond
  rw [firstName, secondName]
  exact named_eq_iff

/-- Specifications with distinct qualified names give artifacts with distinct names. -/
theorem nodup_names_of_nodup_qualifiedNames {unit : CompilationUnit} {options : Options}
    (distinct : ((unit.discover options.defaults).specs.map (·.id.qualifiedName)).Nodup) :
    ((generate unit options).artifacts.map (·.name)).Nodup := by
  rw [generate_artifacts, List.map_flatMap, List.nodup_flatMap]
  refine ⟨fun spec _ => nodup_names_generateSpec _ spec, ?_⟩
  refine (List.pairwise_map.1 distinct).imp_of_mem fun {first second} isFirst isSecond apart => ?_
  refine disjoint_names_generateSpec _ ?_
  rw [scopeName_of_mem_specs isFirst, scopeName_of_mem_specs isSecond]
  exact apart

/-- Artifact names collide exactly for one form of methods with one qualified name.

The names of the artifacts of a batch are distinct exactly if no two of them hold the same form of
methods with the same scope and name. This is so if no two specifications have the same scope and
name. Let the names be plain and let the batch be written into a directory. Then no artifact is lost
exactly if those that hold the same form of methods with the same scope and name have the same
text, and a comparison right after reports a changed file exactly if an artifact is lost. -/
theorem artifact_names_distinct_iff (unit : CompilationUnit) (options : Options) :
    (((generate unit options).artifacts.map (·.name)).Nodup ↔
      ((generate unit options).artifacts.map fun artifact =>
        (artifact.kind, artifact.spec.qualifiedName)).Nodup) ∧
    (((unit.discover options.defaults).specs.map (·.id.qualifiedName)).Nodup →
      ((generate unit options).artifacts.map (·.name)).Nodup) ∧
    ∀ (tree after : FileTree) (directory : String) (count : Nat),
      (∀ artifact ∈ (generate unit options).artifacts, IsPlain artifact.name) →
      perform (OutputDirectory.write directory (generate unit options).artifacts) tree =
        (.ok count, after) →
      ((∀ artifact ∈ (generate unit options).artifacts,
          after.read (join directory artifact.name) = .ok artifact.text) ↔
        ∀ first ∈ (generate unit options).artifacts, ∀ second ∈ (generate unit options).artifacts,
          first.kind = second.kind → first.spec.qualifiedName = second.spec.qualifiedName →
            first.text = second.text) ∧
      (∃ orphaned : List String,
        perform (OutputDirectory.compare directory (generate unit options).artifacts) after =
          (.ok (OutputDirectory.replaced (generate unit options).artifacts ++
            orphaned.map .orphaned), after)) ∧
      (OutputDirectory.replaced (generate unit options).artifacts = [] ↔
        ∀ artifact ∈ (generate unit options).artifacts,
          after.read (join directory artifact.name) = .ok artifact.text) := by
  refine ⟨?_, nodup_names_of_nodup_qualifiedNames, ?_⟩
  · unfold List.Nodup
    rw [List.pairwise_map, List.pairwise_map]
    refine List.Pairwise.iff_of_mem fun isFirst isSecond => not_congr ?_
    rw [name_eq_name_iff isFirst isSecond, Prod.mk.injEq]
  · intro tree after directory count plain written
    have allKept := OutputDirectory.all_read_back_iff plain written
    refine ⟨allKept.trans ?_, OutputDirectory.perform_compare_of_written plain written,
      OutputDirectory.replaced_eq_nil_iff.trans allKept.symm⟩
    refine forall₂_congr fun first isFirst => forall₂_congr fun second isSecond => ?_
    rw [name_eq_name_iff isFirst isSecond, and_imp]

end Batch

/-! ## Overloads -/

namespace Overloads

/-- `Dest Name(Type s) => s;`, marked for generation. -/
def mapping (name parameterType : String) : Method :=
  { name
    parameters := [{ name := "s", type := .reference parameterType }]
    returnType := .reference "Dest"
    body := .expression (.parameter "s" (.reference parameterType))
    marker := some {} }

def unitOf (methods : List Method) : CompilationUnit :=
  { scopes := [{ name := "Mappers", methods }] }

def methods : CompilationUnit := unitOf [mapping "MapA" "S", mapping "MapB" "S"]

def overloads : CompilationUnit := unitOf [mapping "Map" "A", mapping "Map" "B"]

/-- A tree with nothing but the directory `out`. -/
def emptyOutput : FileTree := ({} : FileTree).put ["out"] .directory

open FilePath (IsPlain join)
open Workspace (perform)

private theorem exists_written {artifacts : List Artifact}
    (plain : ∀ artifact ∈ artifacts, IsPlain artifact.name)
    (clear : OutputDirectory.Clear emptyOutput "out" artifacts) :
    ∃ count after, perform (OutputDirectory.write "out" artifacts) emptyOutput =
      (.ok count, after) := by
  have present : emptyOutput.isDirectory "out" = true := by decide +kernel
  exact (OutputDirectory.exists_perform_write_iff plain).2
    ⟨emptyOutput, Workspace.createDirectories_of_isDirectory present, clear⟩

/-- Methods of different names have different files, and none is lost. -/
theorem artifact_names_of_two_methods :
    (methods.discover {}).specs.length = 2 ∧
    ((Batch.generate methods {}).artifacts.map (·.name)).Nodup ∧
    ∃ count after,
      perform (OutputDirectory.write "out" (Batch.generate methods {}).artifacts) emptyOutput =
        (.ok count, after) ∧
      ∀ artifact ∈ (Batch.generate methods {}).artifacts,
        after.read (join "out" artifact.name) = .ok artifact.text := by
  obtain ⟨distinct_iff, ofMethods, ofWritten⟩ := Batch.artifact_names_distinct_iff methods {}
  have distinct := ofMethods (by decide)
  have plain : ∀ artifact ∈ (Batch.generate methods {}).artifacts, IsPlain artifact.name := by
    rw [Batch.generate_artifacts]
    decide +kernel
  have clear : OutputDirectory.Clear emptyOutput "out" (Batch.generate methods {}).artifacts := by
    rw [Batch.generate_artifacts]
    decide +kernel
  obtain ⟨count, after, written⟩ := exists_written plain clear
  refine ⟨by decide, distinct, count, after, written, ?_⟩
  refine (ofWritten _ _ _ _ plain written).1.2 ?_
  intro first isFirst second isSecond sameKind sameMethod
  rw [List.inj_on_of_nodup_map (distinct_iff.1 distinct) isFirst isSecond
    (Prod.ext sameKind sameMethod)]

/-- The overloads `Map(A)` and `Map(B)` have different identities, and both of their expression
forms are named `Mappers.Map.Expression.g.cs`. One of the two is lost when they are written. -/
theorem overloads_share_file_name :
    (overloads.declarations.map fun declared => declared.2.id declared.1.name).Nodup ∧
    ¬((Batch.generate overloads {}).artifacts.map (·.name)).Nodup ∧
    ∃ count after,
      perform (OutputDirectory.write "out" (Batch.generate overloads {}).artifacts) emptyOutput =
        (.ok count, after) ∧
      ∃ artifact ∈ (Batch.generate overloads {}).artifacts,
        after.read (join "out" artifact.name) ≠ .ok artifact.text := by
  have plain : ∀ artifact ∈ (Batch.generate overloads {}).artifacts, IsPlain artifact.name := by
    rw [Batch.generate_artifacts]
    decide +kernel
  have clear : OutputDirectory.Clear emptyOutput "out" (Batch.generate overloads {}).artifacts := by
    rw [Batch.generate_artifacts]
    decide +kernel
  have differ : ¬OutputDirectory.SharedNamesAgree (Batch.generate overloads {}).artifacts := by
    rw [Batch.generate_artifacts]
    unfold OutputDirectory.SharedNamesAgree
    decide +kernel
  have collide : ¬((Batch.generate overloads {}).artifacts.map (·.name)).Nodup :=
    fun distinct => differ (OutputDirectory.sharedNamesAgree_of_nodup distinct)
  obtain ⟨count, after, written⟩ := exists_written plain clear
  refine ⟨by decide, collide, count, after, written, ?_⟩
  rw [← OutputDirectory.all_read_back_iff plain written] at differ
  simpa using differ

end Overloads

end MappingForms
