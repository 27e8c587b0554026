import MappingForms.Json.Token

/-!
Contract: reading a JSON text.

Owns: the machine that builds a value from tokens.

The machine keeps the arrays and objects that are still open, innermost first, so it
takes one step for each token, whatever the nesting.
-/

set_option autoImplicit false

namespace MappingForms.Json

/-- An open array or object with what it holds so far, last one first. -/
inductive Frame where
  | array (before : List Json)
  | object (before : List (Option String × Json)) (key : Option String)

inductive Expecting where
  | value
  /-- An element of a new array, or its end. -/
  | firstElement
  /-- A key of a new object, or its end. -/
  | firstKey
  /-- A key after other members. -/
  | key (before : List (Option String × Json))
  | colon (before : List (Option String × Json)) (key : Option String)
  /-- What follows a complete value. -/
  | next (value : Json)

structure Progress where
  expecting : Expecting
  frames : List Frame

private def begin? (frames : List Frame) : Token → Option Progress
  | .null => some ⟨.next .null, frames⟩
  | .bool value => some ⟨.next (.bool value), frames⟩
  | .number numeral => some ⟨.next (.number numeral), frames⟩
  | .string content => some ⟨.next (.string content), frames⟩
  | .openArray => some ⟨.firstElement, frames⟩
  | .openObject => some ⟨.firstKey, frames⟩
  | _ => none

private def continue? (value : Json) : List Frame → Token → Option Progress
  | .array before :: frames, .comma => some ⟨.value, .array (value :: before) :: frames⟩
  | .array before :: frames, .closeArray =>
    some ⟨.next (.array (value :: before).reverse), frames⟩
  | .object before key :: frames, .comma => some ⟨.key ((key, value) :: before), frames⟩
  | .object before key :: frames, .closeObject =>
    some ⟨.next (.object ((key, value) :: before).reverse), frames⟩
  | _, _ => none

def advance? (progress : Progress) (token : Token) : Option Progress :=
  match progress.expecting, token with
  | .value, token => begin? progress.frames token
  | .firstElement, .closeArray => some ⟨.next (.array []), progress.frames⟩
  | .firstElement, token => begin? (.array [] :: progress.frames) token
  | .firstKey, .closeObject => some ⟨.next (.object []), progress.frames⟩
  | .firstKey, .string key => some ⟨.colon [] key, progress.frames⟩
  | .key before, .string key => some ⟨.colon before key, progress.frames⟩
  | .colon before key, .colon => some ⟨.value, .object before key :: progress.frames⟩
  | .next value, token => continue? value progress.frames token
  | _, _ => none

private def finish? : Progress → Option Json
  | ⟨.next value, []⟩ => some value
  | _ => none

def ofTokens? (tokens : List Token) : Option Json :=
  (tokens.foldlM advance? ⟨.value, []⟩).bind finish?

/-- The value of a text, which holds nothing else. -/
def parse? (text : String) : Option Json := (tokens? text).bind ofTokens?

end MappingForms.Json
