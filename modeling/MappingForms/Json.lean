import MappingForms.Json.Numeral

/-!
Contract: JSON values.

Owns: the value type, its builders and projections, and the check that a value can
be taken in as a whole.

Objects keep their members in order and may repeat a key. Strings may hold an escape
for half a surrogate pair, which stands for no character; what such a string contains
is not kept.
-/

set_option autoImplicit false

namespace MappingForms

inductive Json where
  | null
  | bool (value : Bool)
  | number (numeral : Json.Numeral)
  /-- A string, with `none` for one that is not a text. -/
  | string (content : Option String)
  | array (elements : List Json)
  | object (members : List (Option String × Json))

namespace Json

instance : Inhabited Json := ⟨null⟩

def text (content : String) : Json := string (some content)

def int (value : Int) : Json := number (.ofInt value)

def nat (value : Nat) : Json := number (.ofNat value)

def record (members : List (String × Json)) : Json :=
  object (members.map fun (key, value) => (some key, value))

/-- The value, or null in its absence. -/
def nullable {α : Type} (encode : α → Json) : Option α → Json
  | some value => encode value
  | none => null

def list {α : Type} (encode : α → Json) (values : List α) : Json := array (values.map encode)

def bool? : Json → Option Bool
  | bool value => some value
  | _ => none

def text? : Json → Option String
  | string content => content
  | _ => none

def int? : Json → Option Int
  | number numeral => numeral.toInt?
  | _ => none

def natBelow? (limit : Nat) (json : Json) : Option Nat :=
  json.int?.bind fun value =>
    if 0 ≤ value ∧ value < limit then some value.toNat else none

def depthLimit : Nat := 127

mutual

/-- Whether a value nests within the given levels, all its strings are texts and all
its numbers are in the range of doubles. -/
def isStrict (levels : Nat) (json : Json) : Bool :=
  match json with
  | null => true
  | bool _ => true
  | number numeral => numeral.toBinary64?.isSome
  | string content => content.isSome
  | array elements => match levels with
    | 0 => false
    | inner + 1 => areStrict inner elements
  | object members => match levels with
    | 0 => false
    | inner + 1 => membersAreStrict inner members
termination_by structural json

@[inherit_doc isStrict]
def areStrict (levels : Nat) (elements : List Json) : Bool :=
  match elements with
  | [] => true
  | first :: rest => first.isStrict levels && areStrict levels rest
termination_by structural elements

@[inherit_doc isStrict]
def membersAreStrict (levels : Nat) (members : List (Option String × Json)) : Bool :=
  match members with
  | [] => true
  | (key, value) :: rest =>
    key.isSome && value.isStrict levels && membersAreStrict levels rest
termination_by structural members

end

end Json

end MappingForms
