import MappingForms.Document
import MappingForms.Json

/-!
Contract: writing a JSON text.

Owns: the escapes of strings, the text of a value on one line, and its text with one
member or element a line.
-/

set_option autoImplicit false

namespace MappingForms.Json

def hexDigit (value : Nat) : Char := "0123456789abcdef".toList.getD value '0'

/-- A character inside a string. Quotes, backslashes and control characters are
escaped. -/
def escape (c : Char) : String :=
  match c with
  | '"' => "\\\""
  | '\\' => "\\\\"
  | '\x08' => "\\b"
  | '\x0c' => "\\f"
  | '\n' => "\\n"
  | '\r' => "\\r"
  | '\t' => "\\t"
  | c =>
    if c < ' ' then
      "\\u00" ++ String.ofList [hexDigit (c.toNat / 16), hexDigit (c.toNat % 16)]
    else
      c.toString

def quoted (content : String) : String :=
  content.toList.foldl (fun output c => output ++ escape c) "\"" ++ "\""

/-- A string in quotes. One that is no text is written as half a surrogate pair. -/
def quotedContent : Option String → String
  | some content => quoted content
  | none => "\"\\ud800\""

mutual

def writeTo (json : Json) (output : String) : String :=
  match json with
  | null => output ++ "null"
  | bool value => output ++ if value then "true" else "false"
  | number numeral => output ++ numeral.text
  | string content => output ++ quotedContent content
  | array elements => writeElementsTo elements "" (output ++ "[") ++ "]"
  | object members => writeMembersTo members "" (output ++ "\x7b") ++ "\x7d"
termination_by structural json

/-- Appends elements, each after a separator. -/
def writeElementsTo (elements : List Json) (separator output : String) : String :=
  match elements with
  | [] => output
  | first :: rest => writeElementsTo rest "," (first.writeTo (output ++ separator))
termination_by structural elements

/-- Appends members, each after a separator. -/
def writeMembersTo (members : List (Option String × Json)) (separator output : String) :
    String :=
  match members with
  | [] => output
  | (key, value) :: rest =>
    writeMembersTo rest "," (value.writeTo (output ++ separator ++ quotedContent key ++ ":"))
termination_by structural members

end

/-- The text of a value on one line. -/
def compact (json : Json) : String := json.writeTo ""

def indentWidth : Int64 := 2

/-- Parts on lines of their own between brackets; nothing between them if there are
no parts. -/
private def bracketed (opening closing : String) (parts : List Document) : Document :=
  if parts.isEmpty then .text (opening ++ closing)
  else
    .concat
      [opening,
        .nest indentWidth (.concat [.line, .join parts (.concat [",", .line])]), .line, closing]

mutual

/-- A value with each element and member on a line of its own. -/
def layout (json : Json) : Document :=
  match json with
  | null => "null"
  | bool value => if value then "true" else "false"
  | number numeral => numeral.text
  | string content => quotedContent content
  | array elements => bracketed "[" "]" (layoutElements elements)
  | object members => bracketed "\x7b" "\x7d" (layoutMembers members)
termination_by structural json

@[inherit_doc layout]
def layoutElements (elements : List Json) : List Document :=
  match elements with
  | [] => []
  | first :: rest => first.layout :: layoutElements rest
termination_by structural elements

@[inherit_doc layout]
def layoutMembers (members : List (Option String × Json)) : List Document :=
  match members with
  | [] => []
  | (key, value) :: rest =>
    .concat [quotedContent key, ": ", value.layout] :: layoutMembers rest
termination_by structural members

end

/-- The text of a value over several lines. -/
def pretty (json : Json) : String := json.layout.render

end MappingForms.Json
