import MappingForms.FilePath
import Mathlib.Data.List.Basic

/-!
Contract: the paths of the files in a directory.

Owns: plain names, the steps of a path that ends in one, and the first of the paths around a
path.
-/

set_option autoImplicit false

namespace MappingForms

namespace FilePath

/-- A name that a file in a directory can have. -/
def IsPlain (name : String) : Prop := name ∉ ["", ".", ".."] ∧ '/' ∉ name.toList

instance : DecidablePred IsPlain := fun _ => inferInstanceAs (Decidable (_ ∧ _))

theorem IsPlain.isStep {name : String} (plain : IsPlain name) : isStep name = true := by
  simp only [IsPlain, List.mem_cons, not_or] at plain
  simp [FilePath.isStep, plain]

theorem IsPlain.ne_parent {name : String} (plain : IsPlain name) : name ≠ ".." := by
  rintro rfl
  exact plain.1 (by simp)

theorem IsPlain.isAbsolute {name : String} (plain : IsPlain name) : isAbsolute name = false := by
  unfold FilePath.isAbsolute
  cases characters : name.toList with
  | nil => rfl
  | cons first rest =>
    have notSlash : first ≠ '/' := by
      rintro rfl
      exact plain.2 (characters ▸ List.mem_cons_self)
    simpa using notSlash

private theorem splitPieces_slash (before left right : List Char) :
    splitPieces before (left ++ '/' :: right) =
      splitPieces before left ++ splitPieces [] right := by
  induction left generalizing before with
  | nil => simp [splitPieces]
  | cons first rest inductionHypothesis =>
    rw [List.cons_append, splitPieces, splitPieces, inductionHypothesis, inductionHypothesis]
    split
    · rfl
    · rfl

private theorem splitPieces_of_noSlash {text : List Char} (noSlash : '/' ∉ text)
    (before : List Char) :
    splitPieces before text = [String.ofList (before.reverse ++ text)] := by
  induction text generalizing before with
  | nil => simp [splitPieces]
  | cons first rest inductionHypothesis =>
    have firstOther : first ≠ '/' := by
      rintro rfl
      exact noSlash List.mem_cons_self
    have restNoSlash : '/' ∉ rest := fun member => noSlash (List.mem_cons_of_mem _ member)
    rw [splitPieces, if_neg firstOther, inductionHypothesis restNoSlash]
    simp

/-- A plain name is the last piece of its path, after pieces with the steps of the directory. -/
theorem exists_pieces_join (directory : String) {name : String} (plain : IsPlain name) :
    ∃ above, pieces (join directory name) = above ++ [name] ∧
      above.filter isStep = steps directory := by
  have namePieces : splitPieces [] name.toList = [name] := by
    rw [splitPieces_of_noSlash plain.2]
    simp
  unfold join
  rw [plain.isAbsolute, if_neg Bool.false_ne_true]
  split
  · rename_i noSlashNeeded
    rcases Bool.or_eq_true_iff.1 noSlashNeeded with isEmpty | endsInSlash
    · have nothing : directory = "" := by simpa using isEmpty
      subst nothing
      refine ⟨[], ?_, rfl⟩
      simpa [pieces] using namePieces
    · obtain ⟨start, isStart⟩ := List.getLast?_eq_some_iff.1 (eq_of_beq endsInSlash)
      refine ⟨splitPieces [] start, ?_, ?_⟩
      · unfold pieces
        rw [String.toList_append, isStart, List.append_assoc]
        show splitPieces [] (start ++ '/' :: name.toList) = _
        rw [splitPieces_slash, namePieces]
      · unfold steps pieces
        rw [isStart, splitPieces_slash, List.filter_append]
        simp [splitPieces, isStep]
  · refine ⟨pieces directory, ?_, rfl⟩
    unfold pieces
    rw [String.toList_append, String.toList_append, List.append_assoc]
    show splitPieces [] (directory.toList ++ '/' :: name.toList) = _
    rw [splitPieces_slash, namePieces]

/-- A name in a directory is one step more. -/
theorem steps_join (directory : String) {name : String} (plain : IsPlain name) :
    steps (join directory name) = steps directory ++ [name] := by
  obtain ⟨above, isPieces, aboveSteps⟩ := exists_pieces_join directory plain
  unfold steps at aboveSteps ⊢
  rw [isPieces, List.filter_append, aboveSteps]
  simp [plain.isStep]

/-- The path of a name in a directory does not ask for a directory. -/
theorem namesDirectory_join (directory : String) {name : String} (plain : IsPlain name) :
    namesDirectory (join directory name) = false := by
  obtain ⟨above, isPieces, -⟩ := exists_pieces_join directory plain
  unfold namesDirectory
  rw [isPieces, List.getLast?_concat]
  simp [plain.isStep, plain.ne_parent]

theorem isAbsolute_join {directory name : String} (relative : isAbsolute directory = false)
    (plain : IsPlain name) : isAbsolute (join directory name) = false := by
  unfold join
  rw [plain.isAbsolute, if_neg Bool.false_ne_true]
  unfold isAbsolute at relative ⊢
  cases characters : directory.toList with
  | nil =>
    have nothing : directory = "" := by simpa using characters
    subst nothing
    simpa [isAbsolute] using plain.isAbsolute
  | cons first rest =>
    rw [characters] at relative
    split
    · rw [String.toList_append, characters]
      exact relative
    · rw [String.toList_append, String.toList_append, characters]
      exact relative

theorem join_ne_empty (directory : String) {name : String} (plain : IsPlain name) :
    join directory name ≠ "" := by
  intro isEmpty
  have noSteps := steps_join directory plain
  rw [isEmpty] at noSteps
  simp [steps, pieces, splitPieces, isStep] at noSteps

/-- The path itself comes first among those around it. -/
theorem lineage_eq_cons {path : String} (named : path ≠ "") :
    ∃ around, lineage path = path :: around := by
  unfold lineage
  obtain ⟨length, isLength⟩ : ∃ length, path.length = length + 1 := by
    apply Nat.exists_eq_succ_of_ne_zero
    simpa using named
  rw [isLength, around, if_neg (by simpa using named)]
  cases parent? path with
  | none => exact ⟨_, rfl⟩
  | some above => exact ⟨_, rfl⟩

end FilePath

end MappingForms
