import MappingForms.FileTree
import MappingForms.Proofs.FilePath
import MappingForms.Proofs.Table

/-!
Contract: the files of one directory of a tree.

Owns: directories that a path leads to, and what reading, writing and listing mean for the plain
names in such a directory.

Requests name a directory by its path, and the tree keeps its files under the place that the
path leads to. Every directory on the way counts, also one that two dots leave again, so the
place stays the same as long as directories stay. No request of a command takes one away.
-/

set_option autoImplicit false

namespace MappingForms

namespace FileTree

/-! ## Nodes -/

theorem isGiven_concat {name : String} (below : name ≠ "..") (place : List String) :
    isGiven (place ++ [name]) = false := by
  simp [isGiven, below]

theorem isGiven_eq_false {tree : FileTree} {place : List String}
    (different : tree.node? place ≠ some .directory) : isGiven place = false := by
  apply Bool.eq_false_iff.2
  intro given
  exact different (if_pos given)

/-- Putting a node changes one place, unless that is the place of a directory around the tree. -/
theorem node?_put {place : List String} (below : isGiven place = false) (tree : FileTree)
    (node : FileNode) (other : List String) :
    (tree.put place node).node? other = if other = place then some node else tree.node? other := by
  unfold node? put
  rw [Table.get?_insert]
  by_cases same : other = place
  · rw [if_pos same, if_pos same, same, below]
    rfl
  · rw [if_neg same, if_neg same]

/-- A node is not put anew. -/
theorem put_of_node? {tree : FileTree} {place : List String} {node : FileNode}
    (below : isGiven place = false) (present : tree.node? place = some node) :
    tree.put place node = tree := by
  have look : tree.nodes.get? place = some node := by
    rw [← present, node?, below]
    rfl
  have sameNodes : tree.nodes.insert place node = tree.nodes := by
    apply Table.ext_get?
    intro key
    rw [Table.get?_insert]
    by_cases same : key = place
    · rw [if_pos same, same, look]
    · rw [if_neg same]
  exact congrArg FileTree.mk sameNodes

/-! ## Ways through a tree -/

/-- A result of two requests comes from a result of the first. -/
theorem exists_of_bind_eq_ok {α β : Type} {first : Except FileError α}
    {second : α → Except FileError β} {result : β} (succeeds : first.bind second = .ok result) :
    ∃ value, first = .ok value ∧ second value = .ok result := by
  cases first with
  | error error => cases succeeds
  | ok value => exact ⟨value, rfl, succeeds⟩

private theorem follow_cons (tree : FileTree) (place : List String) (step : String)
    (rest : List String) :
    tree.follow place (step :: rest) =
      (tree.requireDirectory place).bind fun _ => (enter place step).bind fun next =>
        tree.follow next rest :=
  rfl

private theorem follow_append (tree : FileTree) (place first second : List String) :
    tree.follow place (first ++ second) =
      (tree.follow place first).bind fun reached => tree.follow reached second := by
  induction first generalizing place with
  | nil => rfl
  | cons step rest inductionHypothesis =>
    rw [List.cons_append, follow_cons, follow_cons]
    simp only [inductionHypothesis]
    cases tree.requireDirectory place with
    | error error => rfl
    | ok _ =>
      cases enter place step with
      | error error => rfl
      | ok next => rfl

/-- Every directory of the one tree is a directory of the other. -/
def KeepsDirectories (before after : FileTree) : Prop :=
  ∀ place, before.node? place = some .directory → after.node? place = some .directory

/-- Putting a node where no directory is keeps all directories. -/
theorem KeepsDirectories.put {tree : FileTree} {place : List String} {node : FileNode}
    (notDirectory : tree.node? place ≠ some .directory) :
    KeepsDirectories tree (tree.put place node) := by
  intro other isDirectory
  rw [node?_put (isGiven_eq_false notDirectory)]
  have different : other ≠ place := by
    rintro rfl
    exact notDirectory isDirectory
  rw [if_neg different, isDirectory]

private theorem requireDirectory_eq_ok_iff {tree : FileTree} {place : List String} :
    tree.requireDirectory place = .ok () ↔ tree.node? place = some .directory := by
  unfold requireDirectory
  cases tree.node? place with
  | none => simp
  | some node => cases node <;> simp

/-- Steps that can be followed lead to the same place while directories are kept. -/
theorem follow_of_keepsDirectories {before after : FileTree} (keeps : KeepsDirectories before after)
    {steps place reached : List String} (follows : before.follow place steps = .ok reached) :
    after.follow place steps = .ok reached := by
  induction steps generalizing place with
  | nil => exact follows
  | cons step rest inductionHypothesis =>
    rw [follow_cons] at follows ⊢
    obtain ⟨_, required, entering⟩ := exists_of_bind_eq_ok follows
    obtain ⟨next, entered, following⟩ := exists_of_bind_eq_ok entering
    rw [requireDirectory_eq_ok_iff.2 (keeps _ (requireDirectory_eq_ok_iff.1 required)), entered]
    exact inductionHypothesis following

structure Opens (tree : FileTree) (path : String) (place : List String) : Prop where
  relative : FilePath.isAbsolute path = false
  follows : tree.follow [] (FilePath.steps path) = .ok place
  isDirectory : tree.node? place = some .directory

theorem Opens.of_keepsDirectories {before after : FileTree} {path : String} {place : List String}
    (opens : before.Opens path place) (keeps : KeepsDirectories before after) :
    after.Opens path place :=
  ⟨opens.relative, follow_of_keepsDirectories keeps opens.follows, keeps place opens.isDirectory⟩

theorem opens_empty (tree : FileTree) : tree.Opens "" [] := ⟨rfl, rfl, rfl⟩

private theorem locate_eq (tree : FileTree) (path : String) :
    tree.locate path =
      if isMalformed path then .error .refused
      else if path.isEmpty || FilePath.isAbsolute path then .error .notFound
      else (tree.follow [] (FilePath.steps path)).bind fun place =>
        match tree.node? place with
        | some (.file _) => if FilePath.namesDirectory path then .error .refused else .ok place
        | _ => .ok place := by
  unfold locate
  split
  · rfl
  · split
    · rfl
    · rfl

/-- A well-formed path that opens a directory is located there. -/
theorem Opens.locate {tree : FileTree} {path : String} {place : List String}
    (opens : tree.Opens path place) (wellFormed : isMalformed path = false) (named : path ≠ "") :
    tree.locate path = .ok place := by
  have usable : (path.isEmpty || FilePath.isAbsolute path) = false := by
    simp [named, opens.relative]
  rw [locate_eq, wellFormed, usable, opens.follows]
  simp [Except.bind, opens.isDirectory]

/-- A path that has a place is followed to it. -/
theorem follow_of_locate {tree : FileTree} {path : String} {place : List String}
    (located : tree.locate path = .ok place) :
    isMalformed path = false ∧ path ≠ "" ∧ FilePath.isAbsolute path = false ∧
      tree.follow [] (FilePath.steps path) = .ok place := by
  rw [locate_eq] at located
  split at located
  · cases located
  · rename_i wellFormed
    split at located
    · cases located
    · rename_i usable
      simp only [Bool.or_eq_true, String.isEmpty_iff, not_or, Bool.not_eq_true] at usable
      obtain ⟨reached, followed, isPlace⟩ := exists_of_bind_eq_ok located
      have same : reached = place := by
        split at isPlace
        · split at isPlace
          · cases isPlace
          · exact Except.ok.inj isPlace
        · exact Except.ok.inj isPlace
      exact ⟨Bool.eq_false_iff.2 wellFormed, usable.1, usable.2, same ▸ followed⟩

/-- A directory is where a well-formed path opens one. -/
theorem isDirectory_iff {tree : FileTree} {path : String} :
    tree.isDirectory path = true ↔
      isMalformed path = false ∧ path ≠ "" ∧ ∃ place, tree.Opens path place := by
  unfold isDirectory
  constructor
  · intro isDirectory
    cases located : tree.locate path with
    | error error =>
      rw [located] at isDirectory
      cases isDirectory
    | ok place =>
      rw [located] at isDirectory
      obtain ⟨wellFormed, named, relative, follows⟩ := follow_of_locate located
      exact ⟨wellFormed, named, place, relative, follows, eq_of_beq isDirectory⟩
  · rintro ⟨wellFormed, named, place, opens⟩
    rw [opens.locate wellFormed named]
    simp [opens.isDirectory]

/-! ## Plain names in a directory -/

/-- Whether the path of a name in a directory is short enough and well formed. -/
def admits (directory name : String) : Bool :=
  !isMalformed (FilePath.join directory name) && name.utf8ByteSize ≤ FilePath.nameLimit

section Names

variable {tree : FileTree} {directory name : String} {place : List String}

/-- The path of a name in a directory is located below the directory unless it is too long or
malformed. -/
theorem Opens.locate_join (opens : tree.Opens directory place) (plain : FilePath.IsPlain name) :
    tree.locate (FilePath.join directory name) =
      if admits directory name then .ok (place ++ [name]) else .error .refused := by
  have usable : ((FilePath.join directory name).isEmpty ||
      FilePath.isAbsolute (FilePath.join directory name)) = false := by
    simp [FilePath.join_ne_empty directory plain, FilePath.isAbsolute_join opens.relative plain]
  have lastStep : tree.follow place [name] =
      if name.utf8ByteSize > FilePath.nameLimit then .error .refused
      else .ok (place ++ [name]) := by
    rw [follow_cons, requireDirectory_eq_ok_iff.2 opens.isDirectory]
    unfold enter
    rw [if_neg plain.ne_parent]
    show Except.bind (ite _ _ _) _ = _
    split
    · rfl
    · rfl
  rw [locate_eq, usable, FilePath.steps_join directory plain, follow_append, opens.follows,
    FilePath.namesDirectory_join directory plain]
  show ite _ _ ((tree.follow place [name]).bind _) = _
  rw [lastStep]
  unfold admits
  by_cases malformed : isMalformed (FilePath.join directory name) = true
  · simp [malformed]
  · by_cases long : name.utf8ByteSize > FilePath.nameLimit
    · rw [if_neg malformed, if_pos long]
      simp [malformed, long, Except.bind]
    · rw [if_neg malformed, if_neg long]
      show (match tree.node? (place ++ [name]) with | some (.file _) => _ | _ => _) = _
      have admitted : (!isMalformed (FilePath.join directory name) &&
          decide (name.utf8ByteSize ≤ FilePath.nameLimit)) = true := by
        simp [malformed, Nat.not_lt.1 long]
      rw [if_pos admitted]
      split <;> rfl

/-- Reading a name in a directory gives the file that is there, unless the path is too long or
malformed. -/
theorem Opens.read_join (opens : tree.Opens directory place) (plain : FilePath.IsPlain name) :
    tree.read (FilePath.join directory name) =
      if admits directory name then
        match tree.node? (place ++ [name]) with
        | some (.file text) => .ok text
        | some .directory => .error .refused
        | none => .error .notFound
      else .error .refused := by
  unfold read
  rw [opens.locate_join plain]
  split
  · rfl
  · rfl

theorem Opens.node?_of_read (opens : tree.Opens directory place) (plain : FilePath.IsPlain name)
    {text : String} (found : tree.read (FilePath.join directory name) = .ok text) :
    tree.node? (place ++ [name]) = some (.file text) := by
  rw [opens.read_join plain] at found
  split at found
  · split at found
    · rename_i isFile
      rw [isFile, Except.ok.inj found]
    · cases found
    · cases found
  · cases found

/-- Writing a name in a directory is refused exactly where reading it is, and puts the file there
otherwise. -/
theorem Opens.write_join (opens : tree.Opens directory place) (plain : FilePath.IsPlain name)
    (text : String) :
    tree.write (FilePath.join directory name) text =
      if tree.read (FilePath.join directory name) = .error .refused then .error .refused
      else .ok (tree.put (place ++ [name]) (.file text)) := by
  rw [opens.read_join plain]
  unfold write
  rw [opens.locate_join plain]
  split
  · rw [FilePath.namesDirectory_join directory plain]
    simp only [bind, Except.bind]
    cases tree.node? (place ++ [name]) with
    | none => rfl
    | some node => cases node <;> rfl
  · rfl

theorem Opens.admits_of_free (opens : tree.Opens directory place) (plain : FilePath.IsPlain name)
    (free : tree.read (FilePath.join directory name) ≠ .error .refused) :
    admits directory name = true := by
  apply Bool.of_not_eq_false
  intro refused
  apply free
  rw [opens.read_join plain, refused]
  rfl

theorem Opens.node?_ne_directory (opens : tree.Opens directory place)
    (plain : FilePath.IsPlain name)
    (free : tree.read (FilePath.join directory name) ≠ .error .refused) :
    tree.node? (place ++ [name]) ≠ some .directory := by
  intro isDirectory
  apply free
  rw [opens.read_join plain, isDirectory]
  exact ite_self _

/-- A directory stays open when a file in it is written. -/
theorem Opens.put_file (opens : tree.Opens directory place) (plain : FilePath.IsPlain name)
    (free : tree.read (FilePath.join directory name) ≠ .error .refused) (text : String) :
    (tree.put (place ++ [name]) (.file text)).Opens directory place := by
  apply opens.of_keepsDirectories
  apply KeepsDirectories.put
  exact opens.node?_ne_directory plain free

/-- A file that was put has its text, and all others keep theirs. -/
theorem Opens.read_put (opens : tree.Opens directory place) (plain : FilePath.IsPlain name)
    (free : tree.read (FilePath.join directory name) ≠ .error .refused) (text : String)
    {other : String} (otherPlain : FilePath.IsPlain other) :
    (tree.put (place ++ [name]) (.file text)).read (FilePath.join directory other) =
      if other = name then .ok text else tree.read (FilePath.join directory other) := by
  rw [(opens.put_file plain free text).read_join otherPlain, opens.read_join otherPlain,
    node?_put (isGiven_concat plain.ne_parent place)]
  by_cases same : other = name
  · rw [same, if_pos (opens.admits_of_free plain free), if_pos rfl, if_pos rfl]
  · have otherPlace : place ++ [other] ≠ place ++ [name] := by simpa using same
    rw [if_neg otherPlace, if_neg same]

end Names

/-! ## Listing -/

/-- The names in a directory, none where there is no directory. -/
def listed (tree : FileTree) (directory : String) : List String :=
  (tree.namesIn directory).getD []

/-- The name under which a place is found in another. -/
def nameBelow? (place other : List String) : Option String :=
  match other.getLast? with
  | some name => if other.dropLast = place then some name else none
  | none => none

private theorem nameBelow?_eq_some_iff {place other : List String} {name : String} :
    nameBelow? place other = some name ↔ other = place ++ [name] := by
  unfold nameBelow?
  rcases List.eq_nil_or_concat other with rfl | ⟨start, last, rfl⟩
  · simp
  · simp only [List.concat_eq_append, List.getLast?_concat, List.dropLast_concat]
    by_cases same : start = place
    · simp [same]
    · simp [same]

private theorem listed_eq (tree : FileTree) (directory : String) :
    tree.listed directory =
      match tree.locate directory with
      | .error _ => []
      | .ok place =>
        match tree.node? place with
        | some .directory => tree.nodes.keys.filterMap (nameBelow? place)
        | _ => [] := by
  unfold listed namesIn
  cases tree.locate directory with
  | error error => rfl
  | ok place =>
    show Option.getD (match tree.node? place with | some .directory => _ | _ => _) _ =
      match tree.node? place with | some .directory => _ | _ => _
    split
    · rfl
    · rfl

theorem nodup_listed (tree : FileTree) (directory : String) : (tree.listed directory).Nodup := by
  rw [listed_eq]
  split
  · exact List.nodup_nil
  · split
    · apply (Table.nodup_keys tree.nodes).filterMap
      intro first second name isFirst isSecond
      rw [nameBelow?_eq_some_iff.1 isFirst, nameBelow?_eq_some_iff.1 isSecond]
    · exact List.nodup_nil

/-- A directory lists the names of what is directly below its place. -/
theorem Opens.mem_listed {tree : FileTree} {directory : String} {place : List String}
    (opens : tree.Opens directory place) (name : String) :
    name ∈ tree.listed directory ↔
      isMalformed directory = false ∧ directory ≠ "" ∧
        tree.nodes.contains (place ++ [name]) = true := by
  rw [listed_eq]
  by_cases usable : isMalformed directory = false ∧ directory ≠ ""
  · rw [opens.locate usable.1 usable.2]
    simp [opens.isDirectory, usable, nameBelow?_eq_some_iff, Table.mem_keys_iff_contains]
  · cases located : tree.locate directory with
    | error error =>
      constructor
      · intro isListed
        cases isListed
      · rintro ⟨wellFormed, named, -⟩
        exact absurd ⟨wellFormed, named⟩ usable
    | ok other =>
      obtain ⟨wellFormed, named, -⟩ := follow_of_locate located
      exact absurd ⟨wellFormed, named⟩ usable

end FileTree

end MappingForms
