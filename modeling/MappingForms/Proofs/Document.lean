import MappingForms.Document

/-!
Contract: the characters of a document, and when rendering keeps all of them.

Owns: the plain text of a document, the documents that are rendered without loss, and the
text of blocks and joined parts.

Rendering drops the blanks before a line break. A document whose own text stands before each
of its breaks, and is not blank there, comes out as it is after any output.
-/

set_option autoImplicit false

namespace MappingForms

namespace Document

mutual

/-- The text of a document, with all blanks before line breaks. -/
def plain (indent : Int64) (document : Document) : List Char :=
  match document with
  | nil => []
  | text content => content.toList
  | line => '\n' :: List.replicate indent.toInt.toNat ' '
  | nest amount body => body.plain (indent + amount)
  | concat parts => plainAll indent parts
termination_by structural document

@[inherit_doc plain]
def plainAll (indent : Int64) (documents : List Document) : List Char :=
  match documents with
  | [] => []
  | first :: rest => first.plain indent ++ plainAll indent rest
termination_by structural documents

end

attribute [simp] plain plainAll

@[simp]
theorem plain_append (indent : Int64) (left right : Document) :
    (left ++ right).plain indent = left.plain indent ++ right.plain indent := by
  change plainAll indent [left, right] = _
  simp

/-- A text whose last character is not blank. -/
def EndsFirm (text : List Char) : Prop := ∃ last ∈ text.getLast?, isBlank last = false

theorem EndsFirm.ne_nil {text : List Char} (firm : EndsFirm text) : text ≠ [] := by
  rintro rfl
  obtain ⟨last, found, -⟩ := firm
  simp at found

/-- Text in front does not change how a text ends. -/
theorem EndsFirm.append_left {text : List Char} (firm : EndsFirm text) (front : List Char) :
    EndsFirm (front ++ text) := by
  obtain ⟨last, found, notBlank⟩ := firm
  refine ⟨last, ?_, notBlank⟩
  rw [Option.mem_def] at found
  simp [List.getLast?_append, found]

theorem EndsFirm.of_forall {text : List Char} (nonempty : text ≠ [])
    (notBlank : ∀ c ∈ text, isBlank c = false) : EndsFirm text :=
  ⟨text.getLast nonempty, List.getLast?_eq_some_getLast nonempty,
    notBlank _ (List.getLast_mem nonempty)⟩

/-- Nothing is trimmed from output that ends in a firm text. -/
theorem trimOutput_of_endsFirm {text : List Char} (firm : EndsFirm text) (output : Output) :
    trimOutput (text.reverse ++ output) = text.reverse ++ output := by
  obtain ⟨last, found, notBlank⟩ := firm
  obtain ⟨front, rfl⟩ := List.getLast?_eq_some_iff.1 found
  simp [trimOutput, notBlank]

/-- Rendering keeps every character of the document, whatever stands before it. -/
def Verbatim (indent : Int64) (document : Document) : Prop :=
  ∀ output, document.renderTo indent output = (document.plain indent).reverse ++ output

/-- Rendering keeps every character of the documents after output that is not blank at its end. -/
def VerbatimAfter (indent : Int64) (documents : List Document) : Prop :=
  ∀ output, trimOutput output = output →
    renderAllTo indent documents output = (plainAll indent documents).reverse ++ output

private theorem breakLine_eq {output : Output} (indent : Int64)
    (firm : trimOutput output = output) :
    breakLine indent output = (line.plain indent).reverse ++ output := by
  simp [breakLine, firm]

@[simp]
theorem verbatim_text (indent : Int64) (content : String) : Verbatim indent (text content) :=
  fun _ => rfl

@[simp]
theorem verbatim_nil (indent : Int64) : Verbatim indent nil := fun _ => rfl

private theorem renderAllTo_of_verbatim {indent : Int64} {documents : List Document}
    (verbatim : ∀ document ∈ documents, Verbatim indent document) (output : Output) :
    renderAllTo indent documents output = (plainAll indent documents).reverse ++ output := by
  induction documents generalizing output with
  | nil => rfl
  | cons first rest inductionHypothesis =>
    rw [renderAllTo, verbatim first List.mem_cons_self output,
      inductionHypothesis fun document listed => verbatim document (List.mem_cons_of_mem _ listed)]
    simp

/-- Documents that are kept one by one are kept one after the other. -/
theorem Verbatim.concat {indent : Int64} {documents : List Document}
    (verbatim : ∀ document ∈ documents, Verbatim indent document) :
    Verbatim indent (.concat documents) :=
  renderAllTo_of_verbatim verbatim

@[simp]
theorem Verbatim.append {indent : Int64} {left right : Document}
    (leftVerbatim : Verbatim indent left) (rightVerbatim : Verbatim indent right) :
    Verbatim indent (left ++ right) := by
  refine .concat ?_
  simp [leftVerbatim, rightVerbatim]

private theorem mem_separated {separator document : Document} {parts : List Document}
    (listed : document ∈ separated separator parts) : document = separator ∨ document ∈ parts := by
  fun_induction separated separator parts with
  | case1 => exact absurd listed List.not_mem_nil
  | case2 last => exact .inr listed
  | case3 first rest _ inductionHypothesis =>
    rcases List.mem_cons.1 listed with rfl | listed
    · exact .inr List.mem_cons_self
    rcases List.mem_cons.1 listed with rfl | listed
    · exact .inl rfl
    exact (inductionHypothesis listed).imp_right (List.mem_cons_of_mem first)

theorem getLast?_separated (separator : Document) (parts : List Document) :
    (separated separator parts).getLast? = parts.getLast? := by
  fun_induction separated separator parts with
  | case1 => rfl
  | case2 last => rfl
  | case3 first rest nonempty inductionHypothesis =>
    obtain ⟨second, others, rfl⟩ := List.exists_cons_of_ne_nil nonempty
    rw [List.getLast?_cons_cons, List.getLast?_cons_cons, ← inductionHypothesis]
    cases others <;> simp [separated, List.getLast?_cons_cons]

/-- Parts are kept with a separator between them if the separator is kept too. -/
theorem Verbatim.join {indent : Int64} {parts : List Document} {separator : Document}
    (verbatim : ∀ document ∈ parts, Verbatim indent document)
    (between : Verbatim indent separator) : Verbatim indent (.join parts separator) := by
  refine .concat fun document listed => ?_
  rcases mem_separated listed with rfl | listed
  · exact between
  · exact verbatim document listed

/-- A line that starts with a break is kept after output that is not blank at its end. -/
theorem verbatimAfter_line {indent : Int64} {documents : List Document}
    (verbatim : ∀ document ∈ documents, Verbatim indent document) :
    VerbatimAfter indent [.concat (line :: documents)] := by
  intro output outputFirm
  change renderAllTo indent documents (breakLine indent output) = _
  rw [renderAllTo_of_verbatim verbatim, breakLine_eq indent outputFirm]
  simp

/-- Lines are kept after a separator that is not blank at its end. -/
theorem verbatimAfter_lines {indent : Int64} {separator : String} {lines : List Document}
    (firm : EndsFirm separator.toList)
    (each : ∀ document ∈ lines, VerbatimAfter indent [document]) :
    VerbatimAfter indent (separated separator lines) := by
  fun_induction separated (text separator) lines with
  | case1 => exact fun _ _ => rfl
  | case2 last => exact each last List.mem_cons_self
  | case3 first rest _ inductionHypothesis =>
    intro output outputFirm
    have firstEq := each first List.mem_cons_self output outputFirm
    simp only [renderAllTo, plainAll, List.append_nil] at firstEq
    have restEq := inductionHypothesis
      (fun document listed => each document (List.mem_cons_of_mem _ listed))
      (separator.toList.reverse ++ ((first.plain indent).reverse ++ output))
      (trimOutput_of_endsFirm firm _)
    simp only [renderAllTo, firstEq, renderTo, restEq, plainAll, plain, List.reverse_append,
      List.append_assoc]

/-- A document that is rendered without loss and does not end in a blank. -/
structure Firm (indent : Int64) (document : Document) : Prop where
  verbatim : Verbatim indent document
  endsFirm : EndsFirm (document.plain indent)

theorem Firm.text {content : String} (endsFirm : EndsFirm content.toList) (indent : Int64) :
    Firm indent (text content) :=
  ⟨verbatim_text indent content, endsFirm⟩

/-- Documents end as the last of them does. -/
theorem endsFirm_plainAll {indent : Int64} {documents : List Document} {last : Document}
    (listed : documents.getLast? = some last) (firm : EndsFirm (last.plain indent)) :
    EndsFirm (plainAll indent documents) := by
  induction documents with
  | nil => simp at listed
  | cons first rest inductionHypothesis =>
    cases rest with
    | nil =>
      obtain rfl : first = last := by simpa using listed
      simpa using firm
    | cons second rest =>
      rw [List.getLast?_cons_cons] at listed
      exact (inductionHypothesis listed).append_left _

/-- Documents one after the other are firm if each is kept and the last one ends firmly. -/
theorem Firm.concat {indent : Int64} {documents : List Document} {last : Document}
    (verbatim : ∀ document ∈ documents, Verbatim indent document)
    (listed : documents.getLast? = some last) (firm : EndsFirm (last.plain indent)) :
    Firm indent (.concat documents) :=
  ⟨.concat verbatim, endsFirm_plainAll listed firm⟩

private theorem renderAllTo_append (indent : Int64) (left right : List Document) (output : Output) :
    renderAllTo indent (left ++ right) output =
      renderAllTo indent right (renderAllTo indent left output) := by
  induction left generalizing output with
  | nil => rfl
  | cons first rest inductionHypothesis => exact inductionHypothesis _

private theorem plainAll_append (indent : Int64) (left right : List Document) :
    plainAll indent (left ++ right) = plainAll indent left ++ plainAll indent right := by
  induction left with
  | nil => rfl
  | cons first rest inductionHypothesis => simp [inductionHypothesis]

/-- A block of lines is kept after documents that do not end in a blank. -/
theorem Firm.block {indent : Int64} {front body : List Document}
    (frontVerbatim : ∀ document ∈ front, Verbatim indent document)
    (frontFirm : EndsFirm (plainAll indent front))
    (inside : VerbatimAfter (indent + indentWidth) body)
    (bodyFirm : EndsFirm (plainAll (indent + indentWidth) body)) :
    Firm indent (.concat (front ++ [.block (.concat body)])) := by
  refine ⟨fun output => ?_, endsFirm_plainAll List.getLast?_concat ?_⟩
  · have frontEq := renderAllTo_of_verbatim frontVerbatim output
    -- One output for each brace: what is rendered up to it ends firm, so the break keeps it all.
    have openEq := breakLine_eq indent (trimOutput_of_endsFirm frontFirm output)
    have bodyEq := inside
      ('\x7b' :: breakLine indent ((plainAll indent front).reverse ++ output)) rfl
    have closeEq := breakLine_eq indent (trimOutput_of_endsFirm bodyFirm
      ('\x7b' :: breakLine indent ((plainAll indent front).reverse ++ output)))
    calc (Document.concat (front ++ [.block (.concat body)])).renderTo indent output
        = '\x7d' :: breakLine indent (renderAllTo (indent + indentWidth) body
            ('\x7b' :: breakLine indent (renderAllTo indent front output))) :=
          by rw [renderTo, renderAllTo_append]; rfl
      _ = _ := by
        rw [frontEq, bodyEq, closeEq, openEq]
        simp [Document.block, plainAll_append]
  · rw [Document.block, plain]
    exact endsFirm_plainAll rfl ⟨'\x7d', rfl, rfl⟩

end Document

end MappingForms
