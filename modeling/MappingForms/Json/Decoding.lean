import MappingForms.Json

/-!
Contract: taking records, choices and lists out of JSON values.

Owns: the count of levels that may still open, records in object and in array form,
and choices between named variants.

A record ignores members that it does not know, whatever they hold, and refuses to
find one that it knows twice. In array form its fields come in a fixed order and the
last ones may be missing.
-/

set_option autoImplicit false

namespace MappingForms.Json

/-- How a value is taken in. -/
inductive Reading where
  /-- Directly, with this many levels that may still open. -/
  | direct (levels : Nat)
  /-- As part of a value that was checked as a whole before. -/
  | checked
deriving DecidableEq

namespace Reading

def enter : Reading → Option Reading
  | direct 0 => none
  | direct (levels + 1) => some (direct levels)
  | checked => some checked

def levels : Reading → Nat
  | direct levels => levels
  | checked => depthLimit

def whole : Reading := direct depthLimit

end Reading

abbrev Fields := List (String × Json)

/-- The members of an object, provided all keys are texts. -/
def named? : List (Option String × Json) → Option Fields
  | [] => some []
  | (none, _) :: _ => none
  | (some key, value) :: rest => (named? rest).map ((key, value) :: ·)

def fields? (names : List String) : Json → Option Fields
  | array elements =>
    if elements.length ≤ names.length then some (names.zip elements) else none
  | object members => (named? members).bind fun members =>
    let known := members.filter fun (key, _) => names.contains key
    if (known.map (·.1)).Nodup then some known else none
  | _ => none

namespace Fields

def required {α : Type} (fields : Fields) (name : String) (decode : Json → Option α) :
    Option α :=
  (fields.lookup name).bind decode

def withDefault {α : Type} (fields : Fields) (name : String) (absent : α)
    (decode : Json → Option α) : Option α :=
  match fields.lookup name with
  | some json => decode json
  | none => some absent

def nullable {α : Type} (fields : Fields) (name : String) (decode : Json → Option α) :
    Option (Option α) :=
  match fields.lookup name with
  | some .null => some none
  | some json => (decode json).map some
  | none => some none

end Fields

def list? {α : Type} (decode : Reading → Json → Option α) (reading : Reading) :
    Json → Option (List α)
  | array elements => reading.enter.bind fun inner => elements.mapM (decode inner)
  | _ => none

/-- The name of a chosen variant, and what comes with it if it is written as an object
with that one member. -/
def choice? (reading : Reading) : Json → Option (String × Option Json)
  | string (some name) => some (name, none)
  | object [(some name, content)] => reading.enter.map fun _ => (name, some content)
  | _ => none

/-- Whether nothing comes with a variant: no value, a null or, in a value that was
checked before, an empty object. -/
def isBare (reading : Reading) : Option Json → Bool
  | none => true
  | some null => true
  | some (object []) => reading == .checked
  | some _ => false

/-- A choice between variants that nothing comes with. -/
def variant? {α : Type} (all : List α) (label : α → String) (reading : Reading) (json : Json) :
    Option α :=
  (choice? reading json).bind fun (name, content) =>
    if isBare reading content then all.find? fun variant => label variant == name else none

end MappingForms.Json
