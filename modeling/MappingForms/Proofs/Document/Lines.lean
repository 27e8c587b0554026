import Mathlib.Data.List.DropRight
import Mathlib.Data.List.Forall2
import MappingForms.Document

/-!
Contract: a rendered document is its lines without trailing blanks.

Owns: the lines of a document, the documents whose indentation stays within 64 bits, and the law
that rendering joins the trimmed lines.

Rendering works on one output and takes blanks away from it at every break. The output at a break
consists of finished lines and a current line. A newline is no blank, so what is taken away
belongs to the current line.
-/

set_option autoImplicit false

namespace MappingForms

namespace Document

/-! ## Lines -/

/-- A part of a flat layout. -/
inductive Piece where
  | text (content : String)
  /-- A line break, with the sum of the nests around it. -/
  | line (indent : Int)

mutual

/-- The texts and breaks of a document in order, within nests of a given sum. -/
def pieces (indent : Int) (document : Document) : List Piece :=
  match document with
  | nil => []
  | text content => [.text content]
  | line => [.line indent]
  | nest amount body => body.pieces (indent + amount.toInt)
  | concat parts => piecesOfAll indent parts
termination_by structural document

@[inherit_doc pieces]
def piecesOfAll (indent : Int) (documents : List Document) : List Piece :=
  match documents with
  | [] => []
  | first :: rest => first.pieces indent ++ piecesOfAll indent rest
termination_by structural documents

end

/-- The lines that pieces make, after what stands on the current line. A negative indentation
counts as none. -/
def linesAfter (current : List Char) : List Piece → List (List Char)
  | [] => [current]
  | .text content :: rest => linesAfter (current ++ content.toList) rest
  | .line indent :: rest => current :: linesAfter (List.replicate indent.toNat ' ') rest

/-- The lines of a document: each the indentation of the break before it, and then the texts up
to the next break. -/
def lines (document : Document) : List (List Char) := linesAfter [] (document.pieces 0)

/-- A line without the blanks at its end. -/
def trimLine (line : List Char) : List Char := line.rdropWhile isBlank

mutual

/-- Whether the sums of nests fit in 64 bits, within nests of a given sum. -/
def nestsFit (indent : Int) (document : Document) : Bool :=
  match document with
  | nil | text _ | line => true
  | nest amount body =>
    Int64.minValue.toInt ≤ indent + amount.toInt && indent + amount.toInt ≤ Int64.maxValue.toInt &&
      body.nestsFit (indent + amount.toInt)
  | concat parts => allNestsFit indent parts
termination_by structural document

@[inherit_doc nestsFit]
def allNestsFit (indent : Int) (documents : List Document) : Bool :=
  match documents with
  | [] => true
  | first :: rest => first.nestsFit indent && allNestsFit indent rest
termination_by structural documents

end

mutual

/-- The texts of a document in order. -/
def texts (document : Document) : List String :=
  match document with
  | nil | line => []
  | text content => [content]
  | nest _ body => body.texts
  | concat parts => textsOfAll parts
termination_by structural document

@[inherit_doc texts]
def textsOfAll (documents : List Document) : List String :=
  match documents with
  | [] => []
  | first :: rest => first.texts ++ textsOfAll rest
termination_by structural documents

end

/-! ## Pieces as steps of rendering -/

namespace Piece

def put (output : Output) : Piece → Output
  | .text content => content.toList.reverse ++ output
  | .line indent => List.replicate indent.toNat ' ' ++ '\n' :: trimOutput output

def text? : Piece → Option String
  | .text content => some content
  | .line _ => none

end Piece

private theorem toInt_add_of_fits {indent amount : Int64}
    (atLeast : Int64.minValue.toInt ≤ indent.toInt + amount.toInt)
    (atMost : indent.toInt + amount.toInt ≤ Int64.maxValue.toInt) :
    (indent + amount).toInt = indent.toInt + amount.toInt := by
  rw [Int64.toInt_add]
  have least : Int64.minValue.toInt = -(2 ^ 63) := rfl
  have most : Int64.maxValue.toInt = 2 ^ 63 - 1 := rfl
  apply Int.bmod_eq_of_le <;> omega

mutual

/-- Rendering puts one piece after the other. -/
theorem renderTo_eq_foldl_put {indent : Int64} :
    ∀ {document : Document}, document.nestsFit indent.toInt = true → ∀ output : Output,
      document.renderTo indent output = (document.pieces indent.toInt).foldl Piece.put output
  | .nil, _, _ | .text _, _, _ | .line, _, _ => rfl
  | .nest amount body, fit, output => by
    simp only [nestsFit, Bool.and_eq_true, decide_eq_true_eq] at fit
    obtain ⟨⟨atLeast, atMost⟩, bodyFits⟩ := fit
    have sumEq := toInt_add_of_fits atLeast atMost
    rw [← sumEq] at bodyFits
    rw [renderTo, renderTo_eq_foldl_put bodyFits, pieces, sumEq]
  | .concat _, fit, output => renderAllTo_eq_foldl_put fit output
termination_by structural document => document

private theorem renderAllTo_eq_foldl_put {indent : Int64} :
    ∀ {documents : List Document}, allNestsFit indent.toInt documents = true →
      ∀ output : Output, renderAllTo indent documents output =
        (piecesOfAll indent.toInt documents).foldl Piece.put output
  | [], _, _ => rfl
  | first :: rest, fit, output => by
    simp only [allNestsFit, Bool.and_eq_true] at fit
    rw [renderAllTo, renderTo_eq_foldl_put fit.1, renderAllTo_eq_foldl_put fit.2, piecesOfAll,
      List.foldl_append]
termination_by structural documents => documents

end

mutual

private theorem filterMap_text?_pieces :
    ∀ (indent : Int) (document : Document),
      (document.pieces indent).filterMap Piece.text? = document.texts
  | _, .nil | _, .text _ | _, .line => rfl
  | indent, .nest amount body => filterMap_text?_pieces (indent + amount.toInt) body
  | indent, .concat parts => filterMap_text?_piecesOfAll indent parts
termination_by structural _ document => document

private theorem filterMap_text?_piecesOfAll :
    ∀ (indent : Int) (documents : List Document),
      (piecesOfAll indent documents).filterMap Piece.text? = textsOfAll documents
  | _, [] => rfl
  | indent, first :: rest => by
    rw [piecesOfAll, List.filterMap_append, filterMap_text?_pieces indent first,
      filterMap_text?_piecesOfAll indent rest, textsOfAll]
termination_by structural _ documents => documents

end

/-! ## Finished lines and the current line -/

/-- Of output that ends in a current line, trimming takes the blanks at the end of that line. The
output before it ends in no blank: it is empty, or it ends in a newline. -/
theorem trimOutput_append {base : Output} (finished : trimOutput base = base)
    (current : List Char) :
    trimOutput (current.reverse ++ base) = (trimLine current).reverse ++ base := by
  unfold trimOutput at finished ⊢
  rw [List.dropWhile_append, trimLine, List.rdropWhile, List.reverse_reverse]
  split
  · rename_i allBlank
    rw [List.isEmpty_iff.1 allBlank, finished, List.nil_append]
  · rfl

private theorem linesAfter_ne_nil (current : List Char) (pieces : List Piece) :
    linesAfter current pieces ≠ [] := by
  induction pieces generalizing current with
  | nil => exact List.cons_ne_nil _ _
  | cons first rest inductionHypothesis =>
    cases first with
    | text content => exact inductionHypothesis _
    | line indent => exact List.cons_ne_nil _ _

/-- After all pieces the output holds the finished lines and, trimmed and joined, the lines that
the pieces make. -/
theorem trimOutput_foldl_put (pieces : List Piece) {base : Output}
    (finished : trimOutput base = base) (current : List Char) :
    trimOutput (pieces.foldl Piece.put (current.reverse ++ base)) =
      (['\n'].intercalate ((linesAfter current pieces).map trimLine)).reverse ++ base := by
  induction pieces generalizing current base with
  | nil =>
    rw [List.foldl_nil, trimOutput_append finished, linesAfter, List.map_singleton,
      List.intercalate_singleton]
  | cons first rest inductionHypothesis =>
    rw [List.foldl_cons]
    cases first with
    | text content =>
      have putEq : Piece.put (current.reverse ++ base) (.text content) =
          (current ++ content.toList).reverse ++ base := by simp [Piece.put]
      rw [putEq, inductionHypothesis finished, linesAfter]
    | line indent =>
      -- The break finishes the current line and starts one that holds the indentation only.
      have putEq : Piece.put (current.reverse ++ base) (.line indent) =
          (List.replicate indent.toNat ' ').reverse ++
            ('\n' :: ((trimLine current).reverse ++ base)) := by
        rw [Piece.put, trimOutput_append finished, List.reverse_replicate]
      rw [putEq, inductionHypothesis rfl, linesAfter, List.map_cons,
        List.intercalate_cons_of_ne_nil (by simpa using linesAfter_ne_nil _ _)]
      simp

/-- Rendering joins the trimmed lines of a document. -/
theorem toList_render {document : Document} (fit : document.nestsFit 0 = true) :
    document.render.toList = ['\n'].intercalate (document.lines.map trimLine) := by
  have nothing : trimOutput [] = [] := rfl
  have linesEq := trimOutput_foldl_put (document.pieces 0) nothing []
  rw [List.reverse_nil, List.append_nil, List.append_nil] at linesEq
  have piecesEq := @renderTo_eq_foldl_put 0 document fit []
  rw [render, String.toList_ofList, piecesEq]
  exact List.reverse_eq_iff.2 linesEq

/-! ## What becomes of characters -/

/-- A character that is neither a blank nor a newline. -/
def isInk (c : Char) : Bool := !isBlank c && c != '\n'

/-- Texts without a newline make lines without one. -/
theorem newline_notMem_linesAfter {pieces : List Piece} {current line : List Char}
    (plain : ∀ content ∈ pieces.filterMap Piece.text?, '\n' ∉ content.toList)
    (currentPlain : '\n' ∉ current) (listed : line ∈ linesAfter current pieces) :
    '\n' ∉ line := by
  induction pieces generalizing current with
  | nil => rwa [List.mem_singleton.1 listed]
  | cons first rest inductionHypothesis =>
    cases first with
    | text content =>
      obtain ⟨contentPlain, restPlain⟩ := List.forall_mem_cons.1 plain
      refine inductionHypothesis restPlain ?_ listed
      simp [currentPlain, contentPlain]
    | line indent =>
      rcases List.mem_cons.1 listed with rfl | listed
      · exact currentPlain
      · refine inductionHypothesis plain ?_ listed
        simp [List.mem_replicate]

private theorem filter_isInk_linesAfter (current : List Char) (pieces : List Piece) :
    (linesAfter current pieces).flatten.filter isInk =
      current.filter isInk ++
        ((pieces.filterMap Piece.text?).flatMap String.toList).filter isInk := by
  induction pieces generalizing current with
  | nil => simp [linesAfter]
  | cons first rest inductionHypothesis =>
    cases first with
    | text content => simp [linesAfter, inductionHypothesis, Piece.text?]
    | line indent =>
      have noInk : (List.replicate indent.toNat ' ').filter isInk = [] := by
        simp [isInk, isBlank]
      have sameTexts : (Piece.line indent :: rest).filterMap Piece.text? =
          rest.filterMap Piece.text? := rfl
      rw [linesAfter, List.flatten_cons, List.filter_append, inductionHypothesis, noInk,
        List.nil_append, sameTexts]

/-- Trimming drops blanks at the end of a line and nothing else. -/
theorem exists_trimLine_append (line : List Char) :
    ∃ dropped, line = trimLine line ++ dropped ∧ ∀ c ∈ dropped, isBlank c = true :=
  ⟨line.rtakeWhile isBlank, List.rdropWhile_append_rtakeWhile.symm,
    fun _ listed => List.mem_rtakeWhile_imp listed⟩

private theorem filter_isInk_trimLine (line : List Char) :
    (trimLine line).filter isInk = line.filter isInk := by
  obtain ⟨dropped, lineEq, blank⟩ := exists_trimLine_append line
  have noInk : dropped.filter isInk = [] := by
    rw [List.filter_eq_nil_iff]
    intro c listed
    simp [isInk, blank c listed]
  calc (trimLine line).filter isInk
      = (trimLine line ++ dropped).filter isInk := by
        rw [List.filter_append, noInk, List.append_nil]
    _ = line.filter isInk := by rw [← lineEq]

private theorem filter_isInk_intercalate (lines : List (List Char)) :
    (['\n'].intercalate lines).filter isInk = lines.flatten.filter isInk := by
  induction lines with
  | nil => rfl
  | cons first rest inductionHypothesis =>
    cases rest with
    | nil => simp
    | cons second rest =>
      have noInk : ['\n'].filter isInk = [] := rfl
      rw [List.intercalate_cons_cons, List.filter_append, List.filter_append, noInk,
        inductionHypothesis]
      simp

private theorem filter_isInk_render {document : Document} (fit : document.nestsFit 0 = true) :
    document.render.toList.filter isInk =
      (document.texts.flatMap String.toList).filter isInk := by
  have trimmedAlike : ∀ lines : List (List Char),
      (lines.map trimLine).flatten.filter isInk = lines.flatten.filter isInk := by
    intro lines
    rw [List.filter_flatten, List.filter_flatten, List.map_map]
    exact congrArg List.flatten (List.map_congr_left fun line _ => filter_isInk_trimLine line)
  calc document.render.toList.filter isInk
      = document.lines.flatten.filter isInk := by
        rw [toList_render fit, filter_isInk_intercalate, trimmedAlike]
    _ = (document.texts.flatMap String.toList).filter isInk := by
        rw [lines, filter_isInk_linesAfter, filterMap_text?_pieces]
        rfl

/-- Rendering a document whose texts hold no newline gives its lines, with the blanks at the end
of each line removed and newlines between them. These are the lines of the rendered text, and
none of them ends in a blank. Each has lost nothing but blanks at its end, so that all other
characters of the texts are there in their order.

Nests may be negative; what is asked of them is that their sums fit in 64 bits. -/
theorem render_joins_trimmed_lines (document : Document) (fit : document.nestsFit 0 = true)
    (plain : ∀ content ∈ document.texts, '\n' ∉ content.toList) :
    document.render =
      "\n".intercalate (document.lines.map fun line => String.ofList (trimLine line)) ∧
    document.render.toList.splitOn '\n' = document.lines.map trimLine ∧
    (∀ emitted ∈ document.render.toList.splitOn '\n', ∀ last ∈ emitted.getLast?,
      isBlank last = false) ∧
    List.Forall₂
      (fun emitted line =>
        ∃ dropped, line = emitted ++ dropped ∧ ∀ c ∈ dropped, isBlank c = true)
      (document.render.toList.splitOn '\n') document.lines ∧
    document.render.toList.filter isInk =
      (document.texts.flatMap String.toList).filter isInk := by
  have rendered := toList_render fit
  have linesPlain : ∀ line ∈ document.lines, '\n' ∉ line := fun line listed =>
    newline_notMem_linesAfter (by rwa [filterMap_text?_pieces]) List.not_mem_nil listed
  have emittedEq : document.render.toList.splitOn '\n' = document.lines.map trimLine := by
    rw [rendered]
    apply List.splitOn_intercalate
    · intro emitted listed
      obtain ⟨line, isLine, rfl⟩ := List.mem_map.1 listed
      exact fun newline =>
        linesPlain line isLine ((List.rdropWhile_prefix isBlank line).subset newline)
    · exact List.map_eq_nil_iff.not.2 (linesAfter_ne_nil _ _)
  refine ⟨?_, emittedEq, ?_, ?_, filter_isInk_render fit⟩
  · rw [← String.toList_inj, rendered, String.toList_intercalate, List.map_map]
    simp [Function.comp_def]
  · intro emitted listed last isLast
    rw [emittedEq] at listed
    obtain ⟨line, -, rfl⟩ := List.mem_map.1 listed
    obtain ⟨nonempty, rfl⟩ := List.mem_getLast?_eq_getLast isLast
    exact Bool.eq_false_iff.2 (List.rdropWhile_last_not isBlank line nonempty)
  · rw [emittedEq, List.forall₂_map_left_iff, List.forall₂_same]
    exact fun line _ => exists_trimLine_append line

namespace Outdented

/-- A body with a blank line and trailing blanks, in which one line is moved back by more than
it is indented. -/
def document : Document :=
  .concat ["if (x) ", .nest 4 (.concat
    [.line, "first;\t", .line, .nil, .line, .nest (-6) (.concat [.line, "  label:"]), "  ", .line,
      "a  b"])]

/-- The blank line and the line that holds blanks only come out empty, and the blanks inside of
lines stay. -/
theorem render_of_outdented :
    document.nestsFit 0 = true ∧ (∀ content ∈ document.texts, '\n' ∉ content.toList) ∧
    document.render = "if (x)\n    first;\n\n\n  label:\n    a  b" := by
  have fit : document.nestsFit 0 = true := by decide
  have plain : ∀ content ∈ document.texts, '\n' ∉ content.toList := by decide
  refine ⟨fit, plain, (render_joins_trimmed_lines document fit plain).1.trans ?_⟩
  decide

end Outdented

end Document

end MappingForms
