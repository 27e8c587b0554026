import MappingForms.Proofs.FileTree
import MappingForms.Session

/-!
Contract: requests to a tree of files, one after the other.

Owns: the outcome of a command on a tree, and the creation of a directory together with those
around it: what it adds, when it succeeds, and that it is not repeated.
-/

set_option autoImplicit false

namespace MappingForms

namespace Workspace

/-! ## Single requests -/

private theorem bind_apply {α β : Type} (request : Workspace α) (next : α → Workspace β)
    (tree : FileTree) : (request >>= next) tree = next (request tree).1 (request tree).2 :=
  rfl

theorem write_eq (path text : String) (tree : FileTree) :
    (Files.write path text : Workspace _) tree =
      match tree.write path text with
      | .ok written => (.ok (), written)
      | .error error => (.error error, tree) :=
  rfl

private theorem createDirectory_eq (path : String) (tree : FileTree) :
    (Files.createDirectory path : Workspace _) tree =
      match tree.createDirectory path with
      | .ok created => (.ok (), created)
      | .error error => (.error error, tree) :=
  rfl

/-! ## Commands -/

/-- What a command gives on a tree, and the tree that it leaves. -/
def perform {α : Type} (command : ExceptT CommandError Workspace α) (tree : FileTree) :
    Except CommandError α × FileTree :=
  command.run tree

/-- Commands are performed one after the other, up to the first error. -/
theorem perform_bind {α β : Type} (command : ExceptT CommandError Workspace α)
    (next : α → ExceptT CommandError Workspace β) (tree : FileTree) :
    perform (command >>= next) tree =
      match perform command tree with
      | (.ok value, after) => perform (next value) after
      | (.error error, after) => (.error error, after) := by
  show (ExceptT.bindCont next (perform command tree).1 : Workspace _) (perform command tree).2 = _
  rcases perform command tree with ⟨_ | _, after⟩ <;> rfl

private theorem perform_lift {α : Type} (request : Workspace α) (tree : FileTree) :
    perform (liftM request) tree = (.ok (request tree).1, (request tree).2) :=
  rfl

/-- Reading leaves the tree as it is. -/
theorem perform_read (path : String) (tree : FileTree) :
    perform (liftM (Files.read path : Workspace _)) tree = (.ok (tree.read path), tree) :=
  perform_lift _ tree

/-- A request that fails is reported under the error that is named for it. -/
theorem perform_orFail {α : Type} (request : Workspace (Except FileError α))
    (error : CommandError) (tree : FileTree) :
    perform (Session.orFail request error) tree =
      match request tree with
      | (.ok value, after) => (.ok value, after)
      | (.error _, after) => (.error error, after) := by
  unfold Session.orFail
  rw [perform_bind, perform_lift]
  rcases request tree with ⟨_ | _, after⟩ <;> rfl

end Workspace

/-! ## Creation of directories -/

namespace FileTree

/-- A tree grows by directories only. -/
def AddsDirectories (before after : FileTree) : Prop :=
  ∀ place, after.node? place = before.node? place ∨
    before.node? place = none ∧ after.node? place = some .directory

namespace AddsDirectories

theorem refl (tree : FileTree) : AddsDirectories tree tree := fun _ => .inl rfl

theorem trans {first second third : FileTree} (earlier : AddsDirectories first second)
    (later : AddsDirectories second third) : AddsDirectories first third := by
  intro place
  rcases later place with kept | ⟨absent, added⟩
  · rw [kept]
    exact earlier place
  · rcases earlier place with kept | ⟨-, present⟩
    · exact .inr ⟨kept ▸ absent, added⟩
    · rw [absent] at present
      cases present

end AddsDirectories

private theorem createDirectory_eq_ok {tree after : FileTree} {path : String}
    (created : tree.createDirectory path = .ok after) :
    ∃ place, tree.locate path = .ok place ∧ tree.node? place = none ∧
      after = tree.put place .directory := by
  unfold createDirectory at created
  obtain ⟨place, located, creating⟩ := exists_of_bind_eq_ok created
  refine ⟨place, located, ?_⟩
  cases found : tree.node? place with
  | some node =>
    simp only [found] at creating
    cases creating
  | none =>
    simp only [found] at creating
    split at creating
    · cases creating
    · exact ⟨rfl, (Except.ok.inj creating).symm⟩

/-- A directory that was created is there, and nothing else has changed. -/
theorem createDirectory_adds {tree after : FileTree} {path : String}
    (created : tree.createDirectory path = .ok after) :
    AddsDirectories tree after ∧ after.isDirectory path = true := by
  obtain ⟨place, located, absent, rfl⟩ := createDirectory_eq_ok created
  obtain ⟨wellFormed, named, relative, follows⟩ := follow_of_locate located
  have notDirectory : tree.node? place ≠ some .directory := by simp [absent]
  have below : isGiven place = false := isGiven_eq_false notDirectory
  constructor
  · intro other
    rw [node?_put below]
    by_cases same : other = place
    · exact .inr ⟨same ▸ absent, if_pos same⟩
    · exact .inl (if_neg same)
  · apply isDirectory_iff.2
    refine ⟨wellFormed, named, place, relative, ?_, ?_⟩
    · exact follow_of_keepsDirectories (.put notDirectory) follows
    · rw [node?_put below, if_pos rfl]

private theorem createDirectory_of_isDirectory {tree : FileTree} {path : String}
    (present : tree.isDirectory path = true) : tree.createDirectory path = .error .refused := by
  obtain ⟨wellFormed, named, place, opens⟩ := isDirectory_iff.1 present
  unfold createDirectory
  rw [opens.locate wellFormed named]
  simp only [bind, Except.bind, opens.isDirectory]
  rfl

end FileTree

namespace Workspace

open FileTree

/-- A request that adds nothing but directories. -/
def Adds {α : Type} (request : Workspace α) : Prop := ∀ tree, AddsDirectories tree (request tree).2

theorem Adds.pure {α : Type} (value : α) : Adds (Pure.pure value : Workspace α) :=
  fun tree => .refl tree

/-- Requests one after the other add nothing but directories if each of them does so. -/
theorem Adds.bind {α β : Type} {request : Workspace α} {next : α → Workspace β}
    (first : Adds request) (second : ∀ value, Adds (next value)) : Adds (request >>= next) :=
  fun tree => (first tree).trans (second _ _)

private theorem adds_orPresent (path : String) (result : Except FileError Unit) :
    Adds (Files.orPresent path result : Workspace _) := by
  intro tree
  cases result <;> exact .refl tree

private theorem adds_createDirectory (path : String) :
    Adds (Files.createDirectory path : Workspace _) := by
  intro tree
  rw [createDirectory_eq]
  split
  · rename_i created
    exact (createDirectory_adds created).1
  · exact .refl tree

private theorem createInside_cons (path : String) (around : List String) :
    (Files.createInside (path :: around) : Workspace _) =
      Files.createDirectory path >>= fun result =>
        match result with
        | .error .notFound =>
          Files.createInside around >>= fun created =>
            match created with
            | .ok () => Files.createDirectory path >>= Files.orPresent path
            | .error error => pure (.error error)
        | result => Files.orPresent path result :=
  rfl

private theorem adds_createInside (paths : List String) :
    Adds (Files.createInside paths : Workspace _) := by
  induction paths with
  | nil => exact .pure _
  | cons path around inductionHypothesis =>
    rw [createInside_cons]
    apply (adds_createDirectory path).bind
    intro result
    split
    · apply inductionHypothesis.bind
      intro created
      split
      · exact (adds_createDirectory path).bind (adds_orPresent path)
      · exact .pure _
    · exact adds_orPresent path _

/-- A request that succeeds only if there is a directory in the end. -/
def Ensures (request : Workspace (Except FileError Unit)) (path : String) : Prop :=
  ∀ tree, (request tree).1 = .ok () → (request tree).2.isDirectory path = true

private theorem ensures_createDirectory (path : String) :
    Ensures (Files.createDirectory path) path := by
  intro tree
  rw [createDirectory_eq]
  split
  · rename_i created
    exact fun _ => (createDirectory_adds created).2
  · intro failed
    cases failed

private theorem ensures_orPresent (path : String) (error : FileError) :
    Ensures (Files.orPresent path (.error error)) path := by
  intro tree succeeds
  by_contra absent
  have fails : (Files.orPresent path (.error error) : Workspace _) tree = (.error error, tree) :=
    congrArg (·, tree) (if_neg absent)
  rw [fails] at succeeds
  cases succeeds

theorem Ensures.bind {α : Type} {request : Workspace α}
    {next : α → Workspace (Except FileError Unit)} {path : String}
    (ensured : ∀ value, Ensures (next value) path) : Ensures (request >>= next) path :=
  fun _ => ensured _ _

/-- A request is forgiven only if its directory is there. -/
theorem Ensures.orPresent {request : Workspace (Except FileError Unit)} {path : String}
    (ensured : Ensures request path) : Ensures (request >>= Files.orPresent path) path := by
  intro tree
  rw [bind_apply]
  cases result : (request tree).1 with
  | ok _ =>
    intro _
    exact ensured tree result
  | error error => exact ensures_orPresent path error _

private theorem ensures_createInside (path : String) (around : List String) :
    Ensures (Files.createInside (path :: around)) path := by
  rw [createInside_cons]
  intro tree
  rw [bind_apply]
  cases result : ((Files.createDirectory path : Workspace _) tree).1 with
  | ok _ =>
    intro _
    exact ensures_createDirectory path tree result
  | error error =>
    cases error with
    | refused => exact ensures_orPresent path .refused _
    | notFound =>
      apply Ensures.bind
      intro created
      cases created with
      | ok _ => exact (ensures_createDirectory path).orPresent
      | error error =>
        intro stopped failed
        cases failed

/-- Creating directories adds nothing but directories. -/
theorem addsDirectories_of_createDirectories {tree opened : FileTree} {directory : String}
    (created : (Files.createDirectories directory : Workspace _) tree = (.ok (), opened)) :
    AddsDirectories tree opened := by
  have adds : AddsDirectories tree ((Files.createDirectories directory : Workspace _) tree).2 :=
    adds_createInside _ tree
  rw [created] at adds
  exact adds

private theorem isDirectory_of_createDirectories {tree opened : FileTree} {directory : String}
    (named : directory ≠ "")
    (created : (Files.createDirectories directory : Workspace _) tree = (.ok (), opened)) :
    opened.isDirectory directory = true := by
  obtain ⟨around, isLineage⟩ := FilePath.lineage_eq_cons named
  have present := ensures_createInside directory around tree
  unfold Files.createDirectories at created
  rw [isLineage] at created
  rw [created] at present
  exact present rfl

/-- A directory that was created can be entered. -/
theorem opens_of_createDirectories {tree opened : FileTree} {directory : String}
    (created : (Files.createDirectories directory : Workspace _) tree = (.ok (), opened)) :
    ∃ place, opened.Opens directory place := by
  by_cases named : directory = ""
  · subst named
    exact ⟨[], opens_empty opened⟩
  · exact (isDirectory_iff.1 (isDirectory_of_createDirectories named created)).2.2

/-- Nothing is created where there is a directory. -/
theorem createDirectories_of_isDirectory {tree : FileTree} {directory : String}
    (present : tree.isDirectory directory = true) :
    (Files.createDirectories directory : Workspace _) tree = (.ok (), tree) := by
  obtain ⟨around, isLineage⟩ := FilePath.lineage_eq_cons (isDirectory_iff.1 present).2.1
  have notCreated : (Files.createDirectory directory : Workspace _) tree =
      (.error .refused, tree) := by
    rw [createDirectory_eq, createDirectory_of_isDirectory present]
  unfold Files.createDirectories
  rw [isLineage, createInside_cons, bind_apply, notCreated]
  exact congrArg (·, tree) (if_pos present)

/-- A directory that was created stays there as long as directories are kept. -/
theorem createDirectories_again {tree opened after : FileTree} {directory : String}
    (created : (Files.createDirectories directory : Workspace _) tree = (.ok (), opened))
    (keeps : KeepsDirectories opened after) :
    (Files.createDirectories directory : Workspace _) after = (.ok (), after) := by
  by_cases named : directory = ""
  · subst named
    rfl
  · obtain ⟨wellFormed, -, place, opens⟩ :=
      isDirectory_iff.1 (isDirectory_of_createDirectories named created)
    apply createDirectories_of_isDirectory
    exact isDirectory_iff.2 ⟨wellFormed, named, place, opens.of_keepsDirectories keeps⟩

end Workspace

end MappingForms
