import MappingForms.OutputDirectory
import MappingForms.Proofs.Workspace

/-!
Contract: writing artifacts and comparing a directory with them agree.

Owns: what a directory holds after artifacts were written into it, what a comparison reports
about a directory, and the laws that tie the two together.

Artifacts may share a name. Then the last one of the name stays, and a comparison reports the
others as changed.
-/

set_option autoImplicit false

namespace MappingForms

namespace OutputDirectory

open FilePath (IsPlain join)
open Workspace (perform perform_bind perform_orFail perform_read)

/-! ## Writing -/

private theorem perform_writeArtifact (directory : String) (artifact : Artifact) (tree : FileTree) :
    perform (writeArtifact directory artifact) tree =
      if tree.read (join directory artifact.name) = .ok artifact.text then (.ok false, tree)
      else
        match tree.write (join directory artifact.name) artifact.text with
        | .ok written => (.ok true, written)
        | .error _ => (.error (.writeArtifact (join directory artifact.name)), tree) := by
  have writes : perform (do
      Session.orFail (Files.write (join directory artifact.name) artifact.text)
        (.writeArtifact (join directory artifact.name))
      return true) tree =
      match tree.write (join directory artifact.name) artifact.text with
      | .ok written => (.ok true, written)
      | .error _ => (.error (.writeArtifact (join directory artifact.name)), tree) := by
    rw [perform_bind, perform_orFail, Workspace.write_eq]
    cases tree.write (join directory artifact.name) artifact.text <;> rfl
  unfold writeArtifact
  rw [perform_bind, perform_read]
  cases tree.read (join directory artifact.name) with
  | error error =>
    rw [if_neg nofun]
    exact writes
  | ok text =>
    show perform (if text = artifact.text then pure false else _) tree = _
    by_cases same : text = artifact.text
    · rw [if_pos same, if_pos (congrArg _ same)]
      rfl
    · rw [if_neg same, if_neg fun equal => same (Except.ok.inj equal)]
      exact writes

/-- The tree with artifacts in a directory, one put after the other. -/
def putAll (place : List String) (artifacts : List Artifact) (tree : FileTree) : FileTree :=
  artifacts.foldl (fun tree artifact => tree.put (place ++ [artifact.name]) (.file artifact.text))
    tree

/-- Nothing is in the way of the file of an artifact. -/
def Clear (tree : FileTree) (directory : String) (artifacts : List Artifact) : Prop :=
  ∀ artifact ∈ artifacts, tree.read (join directory artifact.name) ≠ .error .refused

instance (tree : FileTree) (directory : String) (artifacts : List Artifact) :
    Decidable (Clear tree directory artifacts) :=
  inferInstanceAs (Decidable (∀ _ ∈ artifacts, _))

/-- Whether the file of an artifact is missing or has another text. -/
def isStale (tree : FileTree) (directory : String) (artifact : Artifact) : Bool :=
  tree.read (join directory artifact.name) ≠ .ok artifact.text

variable {tree : FileTree} {directory : String} {place : List String}

/-- Writing an artifact puts its file, also where the file is there already. -/
theorem perform_writeArtifact_of_opens (opens : tree.Opens directory place) {artifact : Artifact}
    (plain : IsPlain artifact.name) :
    perform (writeArtifact directory artifact) tree =
      if tree.read (join directory artifact.name) = .error .refused then
        (.error (.writeArtifact (join directory artifact.name)), tree)
      else
        (.ok (isStale tree directory artifact),
          tree.put (place ++ [artifact.name]) (.file artifact.text)) := by
  rw [perform_writeArtifact, opens.write_join plain]
  unfold isStale
  by_cases current : tree.read (join directory artifact.name) = .ok artifact.text
  · -- Nothing is written, and to put the file once more changes nothing.
    have present : tree.node? (place ++ [artifact.name]) = some (.file artifact.text) :=
      opens.node?_of_read plain current
    rw [if_pos current, current, if_neg nofun,
      FileTree.put_of_node? (FileTree.isGiven_concat plain.ne_parent place) present]
    simp
  · rw [if_neg current]
    by_cases refused : tree.read (join directory artifact.name) = .error .refused
    · rw [if_pos refused, if_pos refused]
    · rw [if_neg refused, if_neg refused, decide_eq_true current]

private theorem clear_put_iff (opens : tree.Opens directory place) {name : String}
    (plain : IsPlain name)
    (free : tree.read (join directory name) ≠ .error .refused) (text : String)
    {artifacts : List Artifact} (allPlain : ∀ artifact ∈ artifacts, IsPlain artifact.name) :
    Clear (tree.put (place ++ [name]) (.file text)) directory artifacts ↔
      Clear tree directory artifacts := by
  apply forall₂_congr
  intro artifact listed
  rw [opens.read_put plain free text (allPlain artifact listed)]
  by_cases same : artifact.name = name
  · simp [same, free]
  · rw [if_neg same]

private theorem countP_isStale_put (opens : tree.Opens directory place) {name : String}
    (plain : IsPlain name) (free : tree.read (join directory name) ≠ .error .refused)
    (text : String) {artifacts : List Artifact}
    (allPlain : ∀ artifact ∈ artifacts, IsPlain artifact.name)
    (new : name ∉ artifacts.map (·.name)) :
    artifacts.countP (isStale (tree.put (place ++ [name]) (.file text)) directory) =
      artifacts.countP (isStale tree directory) := by
  apply List.countP_congr
  intro artifact listed
  have different : artifact.name ≠ name := by
    rintro rfl
    exact new (List.mem_map_of_mem listed)
  unfold isStale
  rw [opens.read_put plain free text (allPlain artifact listed), if_neg different]

private theorem perform_writeAll_cons (opens : tree.Opens directory place) {artifact : Artifact}
    (plain : IsPlain artifact.name)
    (free : tree.read (join directory artifact.name) ≠ .error .refused) (rest : List Artifact) :
    perform (writeAll directory (artifact :: rest)) tree =
      match perform (writeAll directory rest)
        (tree.put (place ++ [artifact.name]) (.file artifact.text)) with
      | (.ok others, after) =>
        (.ok ((if isStale tree directory artifact then 1 else 0) + others), after)
      | (.error error, after) => (.error error, after) := by
  rw [writeAll, perform_bind, perform_writeArtifact_of_opens opens plain, if_neg free]
  show perform (writeAll directory rest >>= _) _ = _
  rw [perform_bind]
  rcases perform (writeAll directory rest) _ with ⟨_ | _, after⟩ <;> rfl

/-- With nothing in the way all artifacts are put into the directory. If their names are distinct,
those that were stale are counted. -/
theorem perform_writeAll_of_clear (opens : tree.Opens directory place) {artifacts : List Artifact}
    (plain : ∀ artifact ∈ artifacts, IsPlain artifact.name)
    (clear : Clear tree directory artifacts) :
    ∃ count,
      perform (writeAll directory artifacts) tree = (.ok count, putAll place artifacts tree) ∧
      ((artifacts.map (·.name)).Nodup → count = artifacts.countP (isStale tree directory)) := by
  induction artifacts generalizing tree with
  | nil => exact ⟨0, rfl, fun _ => rfl⟩
  | cons artifact rest inductionHypothesis =>
    obtain ⟨firstPlain, restPlain⟩ := List.forall_mem_cons.1 plain
    obtain ⟨firstFree, restClear⟩ := List.forall_mem_cons.1 clear
    -- The others find the first one put, which is in the way of none of them.
    obtain ⟨others, written, counted⟩ := inductionHypothesis
      (opens.put_file firstPlain firstFree artifact.text) restPlain
      ((clear_put_iff opens firstPlain firstFree artifact.text restPlain).2 restClear)
    refine ⟨(if isStale tree directory artifact then 1 else 0) + others, ?_, ?_⟩
    · rw [perform_writeAll_cons opens firstPlain firstFree, written]
      rfl
    · intro distinct
      obtain ⟨firstNew, restDistinct⟩ := List.nodup_cons.1 distinct
      rw [counted restDistinct,
        countP_isStale_put opens firstPlain firstFree artifact.text restPlain firstNew,
        List.countP_cons, Nat.add_comm]

/-- Artifacts are written only if nothing is in their way. -/
theorem clear_of_perform_writeAll (opens : tree.Opens directory place) {artifacts : List Artifact}
    (plain : ∀ artifact ∈ artifacts, IsPlain artifact.name) {count : Nat} {after : FileTree}
    (written : perform (writeAll directory artifacts) tree = (.ok count, after)) :
    Clear tree directory artifacts := by
  induction artifacts generalizing tree count with
  | nil => exact fun _ listed => nomatch listed
  | cons artifact rest inductionHypothesis =>
    obtain ⟨firstPlain, restPlain⟩ := List.forall_mem_cons.1 plain
    have firstFree : tree.read (join directory artifact.name) ≠ .error .refused := by
      intro refused
      rw [writeAll, perform_bind, perform_writeArtifact_of_opens opens firstPlain,
        if_pos refused] at written
      cases written
    rw [perform_writeAll_cons opens firstPlain firstFree] at written
    have restClear : Clear tree directory rest := by
      rw [← clear_put_iff opens firstPlain firstFree artifact.text restPlain]
      split at written
      · rename_i restWritten
        cases written
        exact inductionHypothesis (opens.put_file firstPlain firstFree artifact.text) restPlain
          restWritten
      · cases written
    exact List.forall_mem_cons.2 ⟨firstFree, restClear⟩

/-- Nothing is written where every file has its text. -/
theorem perform_writeAll_of_current {artifacts : List Artifact}
    (current : ∀ artifact ∈ artifacts,
      tree.read (join directory artifact.name) = .ok artifact.text) :
    perform (writeAll directory artifacts) tree = (.ok 0, tree) := by
  induction artifacts with
  | nil => rfl
  | cons artifact rest inductionHypothesis =>
    obtain ⟨firstCurrent, restCurrent⟩ := List.forall_mem_cons.1 current
    rw [writeAll, perform_bind, perform_writeArtifact, if_pos firstCurrent]
    show perform (writeAll directory rest >>= _) tree = _
    rw [perform_bind, inductionHypothesis restCurrent]
    rfl

/-! ## The files after writing -/

def lastText? (artifacts : List Artifact) (name : String) : Option String :=
  (artifacts.reverse.find? (·.name = name)).map (·.text)

private theorem exists_mem_of_lastText? {artifacts : List Artifact} {name text : String}
    (isLast : lastText? artifacts name = some text) :
    ∃ artifact ∈ artifacts, artifact.name = name ∧ artifact.text = text := by
  obtain ⟨artifact, found, isText⟩ := Option.map_eq_some_iff.1 isLast
  refine ⟨artifact, List.mem_reverse.1 (List.mem_of_find?_eq_some found), ?_, isText⟩
  simpa using List.find?_some found

private theorem lastText?_eq_none_iff {artifacts : List Artifact} {name : String} :
    lastText? artifacts name = none ↔ name ∉ artifacts.map (·.name) := by
  simp [lastText?]

/-- Artifacts that share a name hold the same text. -/
def SharedNamesAgree (artifacts : List Artifact) : Prop :=
  ∀ first ∈ artifacts, ∀ second ∈ artifacts, first.name = second.name → first.text = second.text

/-- Where names are distinct, no two artifacts share one. -/
theorem sharedNamesAgree_of_nodup {artifacts : List Artifact}
    (distinct : (artifacts.map (·.name)).Nodup) : SharedNamesAgree artifacts := by
  intro first isFirst second isSecond sameName
  rw [List.inj_on_of_nodup_map distinct isFirst isSecond sameName]

/-- Every artifact holds the text that stays for its name exactly if those that share a name hold
the same text. -/
theorem forall_lastText?_iff {artifacts : List Artifact} :
    (∀ artifact ∈ artifacts, lastText? artifacts artifact.name = some artifact.text) ↔
      SharedNamesAgree artifacts := by
  constructor
  · intro isLast first isFirst second isSecond sameName
    have firstLast := isLast first isFirst
    rw [sameName, isLast second isSecond] at firstLast
    exact (Option.some.inj firstLast).symm
  · intro agree artifact listed
    cases isLast : lastText? artifacts artifact.name with
    | none => exact absurd (List.mem_map_of_mem listed) (lastText?_eq_none_iff.1 isLast)
    | some text =>
      obtain ⟨last, lastListed, sameName, rfl⟩ := exists_mem_of_lastText? isLast
      rw [agree last lastListed artifact listed sameName]

private theorem nodes_putAll (place : List String) (artifacts : List Artifact) (tree : FileTree) :
    (putAll place artifacts tree).nodes =
      artifacts.foldl (fun nodes artifact =>
        nodes.insert (place ++ [artifact.name]) (.file artifact.text)) tree.nodes := by
  unfold putAll
  induction artifacts generalizing tree with
  | nil => rfl
  | cons artifact rest inductionHypothesis =>
    rw [List.foldl_cons, inductionHypothesis]
    rfl

/-- The place of a name holds the last artifact of that name, or else what it held. -/
theorem get?_putAll (place : List String) (artifacts : List Artifact) (tree : FileTree)
    (name : String) :
    (putAll place artifacts tree).nodes.get? (place ++ [name]) =
      ((lastText? artifacts name).map .file).or (tree.nodes.get? (place ++ [name])) := by
  rw [nodes_putAll, Table.get?_foldl_insert]
  simp [lastText?, Function.comp_def]

/-- All other places hold what they held. -/
theorem node?_putAll_of_ne {artifacts : List Artifact} {other : List String}
    (different : ∀ artifact ∈ artifacts, place ++ [artifact.name] ≠ other) :
    (putAll place artifacts tree).node? other = tree.node? other := by
  have notFound : artifacts.reverse.find? (fun artifact => place ++ [artifact.name] = other) =
      none := by
    simpa using different
  unfold FileTree.node?
  rw [nodes_putAll, Table.get?_foldl_insert, notFound]
  rfl

private theorem keepsDirectories_putAll (opens : tree.Opens directory place)
    {artifacts : List Artifact} (plain : ∀ artifact ∈ artifacts, IsPlain artifact.name)
    (clear : Clear tree directory artifacts) :
    FileTree.KeepsDirectories tree (putAll place artifacts tree) := by
  intro other isDirectory
  rw [node?_putAll_of_ne, isDirectory]
  rintro artifact listed rfl
  exact opens.node?_ne_directory (plain artifact listed) (clear artifact listed) isDirectory

/-- A name maps to the text of the last artifact with it, and all other names to what they
mapped to. -/
theorem read_putAll (opens : tree.Opens directory place) {artifacts : List Artifact}
    (plain : ∀ artifact ∈ artifacts, IsPlain artifact.name)
    (clear : Clear tree directory artifacts) {name : String} (namePlain : IsPlain name) :
    (putAll place artifacts tree).read (join directory name) =
      match lastText? artifacts name with
      | some text => .ok text
      | none => tree.read (join directory name) := by
  have nodeEq : (putAll place artifacts tree).node? (place ++ [name]) =
      ((lastText? artifacts name).map .file).or (tree.node? (place ++ [name])) := by
    unfold FileTree.node?
    rw [FileTree.isGiven_concat namePlain.ne_parent, get?_putAll]
    rfl
  have opensAfter := opens.of_keepsDirectories (keepsDirectories_putAll opens plain clear)
  rw [opensAfter.read_join namePlain, nodeEq]
  cases isLast : lastText? artifacts name with
  | none => exact (opens.read_join namePlain).symm
  | some text =>
    obtain ⟨artifact, listed, rfl, -⟩ := exists_mem_of_lastText? isLast
    rw [if_pos (opens.admits_of_free namePlain (clear artifact listed))]
    rfl

/-! ## Comparing -/

def isBlocked (tree : FileTree) (directory : String) (artifact : Artifact) : Bool :=
  tree.read (join directory artifact.name) = .error .refused

private theorem clear_iff {artifacts : List Artifact} :
    Clear tree directory artifacts ↔ artifacts.find? (isBlocked tree directory) = none := by
  simp [Clear, isBlocked]

def mismatch? (tree : FileTree) (directory : String) (artifact : Artifact) : Option Mismatch :=
  match tree.read (join directory artifact.name) with
  | .ok text =>
    if text = artifact.text then none
    else some (.changed artifact.name (difference artifact text))
  | .error _ => some (.missing artifact.name)

private theorem perform_compareArtifact (directory : String) (artifact : Artifact)
    (tree : FileTree) :
    perform (compareArtifact directory artifact) tree =
      (if tree.read (join directory artifact.name) = .error .refused then
          .error (.readArtifact (join directory artifact.name))
        else .ok (mismatch? tree directory artifact), tree) := by
  unfold compareArtifact mismatch?
  rw [perform_bind, perform_read]
  cases tree.read (join directory artifact.name) with
  | error error => cases error <;> rfl
  | ok text =>
    show perform (if text = artifact.text then pure none else pure (some _)) tree =
      (.ok (if text = artifact.text then none else some _), tree)
    split
    · rfl
    · rfl

/-- The first artifact with something in the way of its file stops a comparison. Nothing is
changed in any case. -/
theorem perform_compareAll (directory : String) (artifacts : List Artifact) (tree : FileTree) :
    perform (compareAll directory artifacts) tree =
      (match artifacts.find? (isBlocked tree directory) with
        | some artifact => .error (.readArtifact (join directory artifact.name))
        | none => .ok (artifacts.filterMap (mismatch? tree directory)), tree) := by
  induction artifacts with
  | nil => rfl
  | cons artifact rest inductionHypothesis =>
    rw [compareAll, perform_bind, perform_compareArtifact]
    by_cases refused : tree.read (join directory artifact.name) = .error .refused
    · have blocked : isBlocked tree directory artifact = true := decide_eq_true refused
      rw [if_pos refused, List.find?_cons_of_pos blocked]
    · have free : ¬isBlocked tree directory artifact = true := by simpa [isBlocked] using refused
      rw [if_neg refused, List.find?_cons_of_neg free]
      show perform (compareAll directory rest >>= _) tree = _
      rw [perform_bind, inductionHypothesis, List.filterMap_cons]
      cases rest.find? (isBlocked tree directory) with
      | some other => rfl
      | none => cases mismatch? tree directory artifact <;> rfl

private theorem perform_compare (directory : String) (artifacts : List Artifact) (tree : FileTree) :
    perform (compare directory artifacts) tree =
      (match artifacts.find? (isBlocked tree directory) with
        | some artifact => .error (.readArtifact (join directory artifact.name))
        | none => .ok (artifacts.filterMap (mismatch? tree directory) ++
          (orphans artifacts (tree.listed directory)).map .orphaned), tree) := by
  rw [compare, perform_bind, perform_compareAll]
  cases artifacts.find? (isBlocked tree directory) with
  | some artifact => rfl
  | none => rfl

private theorem mismatch?_eq_none_iff {artifact : Artifact} :
    mismatch? tree directory artifact = none ↔
      tree.read (join directory artifact.name) = .ok artifact.text := by
  unfold mismatch?
  cases tree.read (join directory artifact.name) with
  | error error => simp
  | ok text => simp

/-! ## Orphans -/

private theorem mem_orphans_iff {artifacts : List Artifact} {names : List String} {name : String} :
    name ∈ orphans artifacts names ↔
      name ∈ names ∧ ".g.cs".toList <:+ name.toList ∧ name ∉ artifacts.map (·.name) := by
  unfold orphans hasArtifactSuffix artifactSuffix
  rw [List.mem_mergeSort, List.mem_filter, Bool.and_eq_true, List.isSuffixOf_iff_suffix]
  simp

private theorem pairwise_orphans (artifacts : List Artifact) {names : List String}
    (distinct : names.Nodup) : (orphans artifacts names).Pairwise (· < ·) := by
  have sorted : (orphans artifacts names).Pairwise fun left right => decide (left ≤ right) := by
    apply List.pairwise_mergeSort
    · intro first second third below above
      exact decide_eq_true (String.le_trans (of_decide_eq_true below) (of_decide_eq_true above))
    · intro first second
      simpa using String.le_total first second
  have nodup : (orphans artifacts names).Nodup :=
    (List.mergeSort_perm _ _).nodup_iff.2 (distinct.filter _)
  apply (sorted.and nodup).imp
  rintro left right ⟨below, different⟩
  apply String.not_le.1
  intro above
  exact different (String.le_antisymm (of_decide_eq_true below) above)

/-! ## Writing and comparing -/

/-- What a directory holds after artifacts were written into it. -/
structure Holds (opened after : FileTree) (directory : String) (artifacts : List Artifact) :
    Prop where
  /-- Each name maps to the text of the last artifact with it, or else to what it mapped to. -/
  named : ∀ name, IsPlain name → after.read (join directory name) =
    match lastText? artifacts name with
    | some text => .ok text
    | none => opened.read (join directory name)
  /-- Every place that is not that of an artifact has what it had. -/
  others : ∀ place,
    (∀ artifact ∈ artifacts, opened.locate (join directory artifact.name) ≠ .ok place) →
      after.node? place = opened.node? place

/-- The generated files in a directory that belong to no artifact, in order. -/
structure AreOrphans (tree : FileTree) (directory : String) (artifacts : List Artifact)
    (names : List String) : Prop where
  sorted : names.Pairwise (· < ·)
  mem_iff : ∀ name, name ∈ names ↔
    name ∈ tree.listed directory ∧ ".g.cs".toList <:+ name.toList ∧
      name ∉ artifacts.map (·.name)

/-- The artifacts that do not have the text of the last one with their name, with the
difference. -/
def replaced (artifacts : List Artifact) : List Mismatch :=
  artifacts.filterMap fun artifact =>
    (lastText? artifacts artifact.name).bind fun text =>
      if text = artifact.text then none
      else some (.changed artifact.name (difference artifact text))

/-- No artifact is replaced by another one exactly if those that share a name hold the same text. -/
theorem replaced_eq_nil_iff {artifacts : List Artifact} :
    replaced artifacts = [] ↔ SharedNamesAgree artifacts := by
  rw [replaced, List.filterMap_eq_nil_iff, ← forall_lastText?_iff]
  refine forall₂_congr fun artifact listed => ?_
  cases isLast : lastText? artifacts artifact.name with
  | none => exact absurd (List.mem_map_of_mem listed) (lastText?_eq_none_iff.1 isLast)
  | some text => simp

section Written

variable {artifacts : List Artifact} (opens : tree.Opens directory place)
  (plain : ∀ artifact ∈ artifacts, IsPlain artifact.name)
  (clear : Clear tree directory artifacts)

include opens plain clear

private theorem holds_putAll : Holds tree (putAll place artifacts tree) directory artifacts where
  named := fun _ namePlain => read_putAll opens plain clear namePlain
  others := by
    intro other apart
    apply node?_putAll_of_ne
    rintro artifact listed rfl
    apply apart artifact listed
    rw [opens.locate_join (plain artifact listed),
      if_pos (opens.admits_of_free (plain artifact listed) (clear artifact listed))]

private theorem read_putAll_of_mem {artifact : Artifact} (listed : artifact ∈ artifacts) :
    ∃ text, lastText? artifacts artifact.name = some text ∧
      (putAll place artifacts tree).read (join directory artifact.name) = .ok text := by
  rw [read_putAll opens plain clear (plain artifact listed)]
  cases isLast : lastText? artifacts artifact.name with
  | none => exact absurd (List.mem_map_of_mem listed) (lastText?_eq_none_iff.1 isLast)
  | some text => exact ⟨text, rfl, rfl⟩

private theorem areOrphans_putAll :
    AreOrphans tree directory artifacts
      (orphans artifacts ((putAll place artifacts tree).listed directory)) where
  sorted := pairwise_orphans artifacts (FileTree.nodup_listed _ _)
  mem_iff := by
    intro name
    have opensAfter := opens.of_keepsDirectories (keepsDirectories_putAll opens plain clear)
    rw [mem_orphans_iff]
    apply and_congr_left
    rintro ⟨-, foreign⟩
    rw [opensAfter.mem_listed, opens.mem_listed, Table.contains, Table.contains, get?_putAll,
      lastText?_eq_none_iff.2 foreign]
    rfl

private theorem perform_compare_putAll :
    perform (compare directory artifacts) (putAll place artifacts tree) =
      (.ok (replaced artifacts ++ (orphans artifacts
        ((putAll place artifacts tree).listed directory)).map .orphaned),
        putAll place artifacts tree) := by
  have clearAfter : Clear (putAll place artifacts tree) directory artifacts := by
    intro artifact listed
    obtain ⟨text, -, found⟩ := read_putAll_of_mem opens plain clear listed
    rw [found]
    exact nofun
  have mismatches : artifacts.filterMap (mismatch? (putAll place artifacts tree) directory) =
      replaced artifacts := by
    apply List.filterMap_congr
    intro artifact listed
    obtain ⟨text, isLast, found⟩ := read_putAll_of_mem opens plain clear listed
    unfold mismatch?
    rw [found, isLast]
    rfl
  rw [perform_compare, clear_iff.1 clearAfter, mismatches]

end Written

private theorem perform_write (directory : String) (artifacts : List Artifact) (tree : FileTree) :
    perform (write directory artifacts) tree =
      match (Files.createDirectories directory : Workspace _) tree with
      | (.ok (), opened) => perform (writeAll directory artifacts) opened
      | (.error _, opened) => (.error (.createOutput directory), opened) := by
  rw [write, perform_bind, perform_orFail]
  rcases (Files.createDirectories directory : Workspace _) tree with ⟨_ | _, opened⟩ <;> rfl

/-- A writing that succeeds has created the directory and put all artifacts into it. -/
theorem putAll_of_perform_write {artifacts : List Artifact}
    (plain : ∀ artifact ∈ artifacts, IsPlain artifact.name) {count : Nat} {after : FileTree}
    (written : perform (write directory artifacts) tree = (.ok count, after)) :
    ∃ opened place,
      (Files.createDirectories directory : Workspace _) tree = (.ok (), opened) ∧
      opened.Opens directory place ∧ Clear opened directory artifacts ∧
      after = putAll place artifacts opened ∧
      ((artifacts.map (·.name)).Nodup → count = artifacts.countP (isStale opened directory)) := by
  rw [perform_write] at written
  split at written
  · rename_i opened created
    obtain ⟨place, opens⟩ := Workspace.opens_of_createDirectories created
    have clear := clear_of_perform_writeAll opens plain written
    obtain ⟨number, putInto, counted⟩ := perform_writeAll_of_clear opens plain clear
    cases written.symm.trans putInto
    exact ⟨opened, place, created, opens, clear, rfl, counted⟩
  · cases written

section Kept

variable {artifacts : List Artifact} (plain : ∀ artifact ∈ artifacts, IsPlain artifact.name)
  {count : Nat} {after : FileTree}
  (written : perform (write directory artifacts) tree = (.ok count, after))

include plain written

/-- Writing keeps the text of every artifact exactly if those that share a name hold the same. -/
theorem all_read_back_iff :
    (∀ artifact ∈ artifacts, after.read (join directory artifact.name) = .ok artifact.text) ↔
      SharedNamesAgree artifacts := by
  obtain ⟨opened, place, -, opens, clear, rfl, -⟩ := putAll_of_perform_write plain written
  rw [← forall_lastText?_iff]
  refine forall₂_congr fun artifact listed => ?_
  obtain ⟨text, isLast, found⟩ := read_putAll_of_mem opens plain clear listed
  rw [isLast, found, Except.ok.injEq, Option.some.injEq]

/-- A comparison right after writing reports the artifacts that were replaced, and orphans. -/
theorem perform_compare_of_written :
    ∃ orphaned : List String, perform (compare directory artifacts) after =
      (.ok (replaced artifacts ++ orphaned.map .orphaned), after) := by
  obtain ⟨opened, place, -, opens, clear, rfl, -⟩ := putAll_of_perform_write plain written
  exact ⟨_, perform_compare_putAll opens plain clear⟩

end Kept

/-- Artifacts can be written exactly if the directory can be created and nothing in it is in the way
of their files. -/
theorem exists_perform_write_iff {artifacts : List Artifact}
    (plain : ∀ artifact ∈ artifacts, IsPlain artifact.name) :
    (∃ count after, perform (write directory artifacts) tree = (.ok count, after)) ↔
      ∃ opened, (Files.createDirectories directory : Workspace _) tree = (.ok (), opened) ∧
        Clear opened directory artifacts := by
  constructor
  · rintro ⟨count, after, written⟩
    obtain ⟨opened, -, created, -, clear, -⟩ := putAll_of_perform_write plain written
    exact ⟨opened, created, clear⟩
  · rintro ⟨opened, created, clear⟩
    obtain ⟨place, opens⟩ := Workspace.opens_of_createDirectories created
    obtain ⟨count, putInto, -⟩ := perform_writeAll_of_clear opens plain clear
    refine ⟨count, putAll place artifacts opened, ?_⟩
    rw [perform_write, created]
    exact putInto

private theorem perform_compare_eq_nil_iff (artifacts : List Artifact) :
    (perform (compare directory artifacts) tree).1 = .ok [] ↔
      (∀ artifact ∈ artifacts, tree.read (join directory artifact.name) = .ok artifact.text) ∧
      ∀ name ∈ tree.listed directory, ".g.cs".toList <:+ name.toList →
        name ∈ artifacts.map (·.name) := by
  have noOrphans : orphans artifacts (tree.listed directory) = [] ↔
      ∀ name ∈ tree.listed directory, ".g.cs".toList <:+ name.toList →
        name ∈ artifacts.map (·.name) := by
    rw [List.eq_nil_iff_forall_not_mem]
    simp only [mem_orphans_iff]
    grind
  have noMismatches : artifacts.filterMap (mismatch? tree directory) = [] ↔
      ∀ artifact ∈ artifacts, tree.read (join directory artifact.name) = .ok artifact.text := by
    simp only [List.filterMap_eq_nil_iff, mismatch?_eq_none_iff]
  rw [perform_compare, ← noOrphans, ← noMismatches]
  cases blocked : artifacts.find? (isBlocked tree directory) with
  | none => simp
  | some artifact =>
    have refused : tree.read (join directory artifact.name) = .error .refused := by
      simpa [isBlocked] using List.find?_some blocked
    have mismatch : artifacts.filterMap (mismatch? tree directory) ≠ [] := by
      intro none
      have found := noMismatches.1 none artifact (List.mem_of_find?_eq_some blocked)
      rw [refused] at found
      cases found
    simp [mismatch]

/-- Writing and comparing agree.

Let the artifacts have plain names. They are written exactly if their directory can be created
and nothing in it is in their way. With `opened` for the tree in which the directory is there,
which is the tree itself if it has the directory and else has more directories only:

* Each name maps to the text of the last artifact with it, and all else stays as it was.
* A comparison then reports no missing file. It reports an artifact as changed exactly if the last
  one with its name has another text. It reports as orphaned, in order, the names of generated
  files that were in the directory and are not names of artifacts.
* If the names are distinct, the files that were missing or had another text are counted, no file
  is reported as changed, and writing again writes nothing.

A comparison never changes the tree. It reports nothing exactly if every artifact has its file
with its text and there is no other generated file in the directory. -/
theorem write_and_compare_agree (tree : FileTree) (directory : String) (artifacts : List Artifact)
    (plain : ∀ artifact ∈ artifacts, IsPlain artifact.name) :
    ((∃ count after, perform (write directory artifacts) tree = (.ok count, after)) ↔
      ∃ opened, (Files.createDirectories directory : Workspace _) tree = (.ok (), opened) ∧
        Clear opened directory artifacts) ∧
    (∀ count after, perform (write directory artifacts) tree = (.ok count, after) →
      ∃ opened orphaned,
        (Files.createDirectories directory : Workspace _) tree = (.ok (), opened) ∧
        FileTree.AddsDirectories tree opened ∧
        (tree.isDirectory directory = true → opened = tree) ∧
        Holds opened after directory artifacts ∧
        AreOrphans opened directory artifacts orphaned ∧
        perform (compare directory artifacts) after =
          (.ok (replaced artifacts ++ orphaned.map .orphaned), after) ∧
        ((artifacts.map (·.name)).Nodup →
          count = artifacts.countP (isStale opened directory) ∧
          replaced artifacts = [] ∧
          perform (write directory artifacts) after = (.ok 0, after))) ∧
    (perform (compare directory artifacts) tree).2 = tree ∧
    ((perform (compare directory artifacts) tree).1 = .ok [] ↔
      (∀ artifact ∈ artifacts, tree.read (join directory artifact.name) = .ok artifact.text) ∧
      ∀ name ∈ tree.listed directory, ".g.cs".toList <:+ name.toList →
        name ∈ artifacts.map (·.name)) := by
  refine ⟨exists_perform_write_iff plain, ?_, ?_, perform_compare_eq_nil_iff artifacts⟩
  · intro count after written
    obtain ⟨opened, place, created, opens, clear, rfl, counted⟩ :=
      putAll_of_perform_write plain written
    refine ⟨opened, _, created, Workspace.addsDirectories_of_createDirectories created, ?_,
      holds_putAll opens plain clear, areOrphans_putAll opens plain clear,
      perform_compare_putAll opens plain clear, ?_⟩
    · intro present
      have unchanged := Workspace.createDirectories_of_isDirectory present
      exact congrArg Prod.snd (created.symm.trans unchanged)
    · intro distinct
      have agree := sharedNamesAgree_of_nodup distinct
      refine ⟨counted distinct, replaced_eq_nil_iff.2 agree, ?_⟩
      rw [perform_write, Workspace.createDirectories_again created
        (keepsDirectories_putAll opens plain clear)]
      apply perform_writeAll_of_current
      intro artifact listed
      rw [read_putAll opens plain clear (plain artifact listed),
        forall_lastText?_iff.2 agree artifact listed]
  · rw [perform_compare]

/-! ## A directory that is out of date -/

namespace OutOfDate

def artifact (name text : String) : Artifact where
  name := name
  kind := .expression
  spec := ⟨"Mappers", "Map", "Source"⟩
  text := text

def artifacts : List Artifact := [artifact "Map.g.cs" "new", artifact "Sum.g.cs" "sum"]

/-- One file has another text, one is missing, one belongs to no artifact, and one was not
generated. -/
def before : FileTree :=
  (((({} : FileTree).put ["out"] .directory).put ["out", "Map.g.cs"] (.file "old")).put
    ["out", "Gone.g.cs"] (.file "gone")).put ["out", "notes.txt"] (.file "notes")

private theorem eq_of_areOrphans {names : List String}
    (orphaned : AreOrphans before "out" artifacts names) : names = ["Gone.g.cs"] := by
  have listing : before.listed "out" = ["Gone.g.cs", "Map.g.cs", "notes.txt"] := by
    decide +kernel
  have distinct : names.Nodup := orphaned.sorted.imp fun below => String.ne_of_lt below
  apply List.perm_singleton.1
  apply (List.perm_ext_iff_of_nodup distinct (List.nodup_singleton _)).2
  intro name
  rw [orphaned.mem_iff, listing, List.mem_singleton]
  constructor
  · rintro ⟨isListed, isGenerated, isForeign⟩
    rcases List.mem_cons.1 isListed with isGone | isOther
    · exact isGone
    · rcases List.mem_pair.1 isOther with rfl | rfl
      · exact absurd (by decide) isForeign
      · exact absurd isGenerated (by decide +kernel)
  · rintro rfl
    decide +kernel

/-- Two files are written. The one that belongs to no artifact is reported, and nothing else. -/
theorem out_of_date_directory_is_rewritten :
    ∃ after, perform (write "out" artifacts) before = (.ok 2, after) ∧
      after.read "out/Map.g.cs" = .ok "new" ∧ after.read "out/notes.txt" = .ok "notes" ∧
      perform (compare "out" artifacts) after = (.ok [.orphaned "Gone.g.cs"], after) ∧
      perform (write "out" artifacts) after = (.ok 0, after) := by
  have present : before.isDirectory "out" = true := by decide +kernel
  have agree := write_and_compare_agree before "out" artifacts (by decide +kernel)
  obtain ⟨count, after, written⟩ := agree.1.2
    ⟨before, Workspace.createDirectories_of_isDirectory present, by decide +kernel⟩
  obtain ⟨opened, orphaned, -, -, same, holds, areOrphans, compared, again⟩ :=
    agree.2.1 count after written
  cases same present
  cases eq_of_areOrphans areOrphans
  obtain ⟨counted, nothing, rewritten⟩ := again (by decide)
  have two : artifacts.countP (isStale before "out") = 2 := by decide +kernel
  rw [counted, two] at written
  rw [nothing] at compared
  refine ⟨after, written, ?_, ?_, compared, rewritten⟩
  · exact holds.named "Map.g.cs" (by decide)
  · exact (holds.named "notes.txt" (by decide)).trans (by decide +kernel)

end OutOfDate

end OutputDirectory

end MappingForms
