/-!
Contract: text layouts with line breaks and indentation, and their rendering.

Owns: the document type, its small combinators, and the rendering into text.

A line break ends the current line and starts the next one at the current
indentation. Rendered lines carry no trailing spaces or tabs, so a blank line
inside an indented block comes out empty. Indentation is counted in 64 bits.
-/

set_option autoImplicit false

namespace MappingForms

inductive Document where
  | nil
  | text (content : String)
  /-- A line break. -/
  | line
  /-- More indentation for the breaks in the body; less if the amount is negative. -/
  | nest (amount : Int64) (body : Document)
  | concat (parts : List Document)

namespace Document

instance : Coe String Document := ⟨text⟩

instance : Append Document := ⟨fun left right => concat [left, right]⟩

def indentWidth : Int64 := 4

/-- The separator between each two of the parts. -/
def separated (separator : Document) : List Document → List Document
  | [] => []
  | [last] => [last]
  | first :: rest => first :: separator :: separated separator rest

def join (parts : List Document) (separator : Document) : Document :=
  concat (separated separator parts)

/-- A block in braces: each brace on a line of its own, the body indented by one
level. The body starts each of its lines with a break. -/
def block (body : Document) : Document :=
  concat [line, "\x7b", nest indentWidth body, line, "\x7d"]

def isBlank (c : Char) : Bool := c == ' ' || c == '\t'

/-- Output is kept with its last character first. -/
abbrev Output := List Char

/-- Drops the blanks at the end of the output. -/
def trimOutput (output : Output) : Output := output.dropWhile isBlank

/-- Ends a line and indents the next. A negative indentation counts as none. -/
def breakLine (indent : Int64) (output : Output) : Output :=
  List.replicate indent.toInt.toNat ' ' ++ '\n' :: trimOutput output

mutual

/-- Appends the rendering of a document to the output. -/
def renderTo (indent : Int64) (document : Document) (output : Output) : Output :=
  match document with
  | nil => output
  | text content => content.toList.reverse ++ output
  | line => breakLine indent output
  | nest amount body => body.renderTo (indent + amount) output
  | concat parts => renderAllTo indent parts output
termination_by structural document

@[inherit_doc renderTo]
def renderAllTo (indent : Int64) (documents : List Document) (output : Output) : Output :=
  match documents with
  | [] => output
  | first :: rest => renderAllTo indent rest (first.renderTo indent output)
termination_by structural documents

end

def render (document : Document) : String :=
  String.ofList (trimOutput (document.renderTo 0 [])).reverse

end Document

end MappingForms
