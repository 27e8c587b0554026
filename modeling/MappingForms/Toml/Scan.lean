/-!
Contract: taking a TOML text apart, character by character.

Owns: the scanner type, the scanners for single characters and given texts, and those
for blanks, comments and line breaks.

Every scanner that repeats a step counts down from the length of the text, which is
never exceeded because each step takes at least one character.
-/

set_option autoImplicit false

namespace MappingForms.Toml

/-- Takes something off the front of the characters, or fails. The number of steps that
scanners may take is at hand. -/
abbrev Scan := ReaderT Nat (StateT (List Char) Option)

namespace Scan

/-- The next character, which stays. -/
def peek : Scan (Option Char) := do return (← get).head?

def next : Scan Char := do
  match ← get with
  | c :: rest =>
    set rest
    return c
  | [] => failure

def startsWith (text : String) : Scan Bool := do return text.toList.isPrefixOf (← get)

def skip (count : Nat) : Scan Unit := modify (List.drop count)

def expect (text : String) : Scan Unit := do
  if ← startsWith text then skip text.length else failure

def takeWhile (test : Char → Bool) : Scan (List Char) := do
  let text ← get
  set (text.dropWhile test)
  return text.takeWhile test

def steps : Scan Nat := read

/-- Tries to take something, and takes nothing on failure. -/
def attempt? {α : Type} (scan : Scan α) : Scan (Option α) := (some <$> scan) <|> return none

def isBlank (c : Char) : Bool := c == ' ' || c == '\t'

def blanks : Scan Unit := do
  let _ ← takeWhile isBlank

/-- The characters that may stand for themselves: no control characters but the tab. -/
def isPlain (c : Char) : Bool := c == '\t' || (' ' ≤ c && c != '\x7f')

/-- The length of the line break that comes next, or zero. -/
def breakLength : Scan Nat := do
  match ← get with
  | '\n' :: _ => return 1
  | '\r' :: '\n' :: _ => return 2
  | _ => return 0

def comment : Scan Unit := do
  if ← startsWith "#" then
    let _ ← takeWhile isPlain

/-- The rest of a line after its content. -/
def lineEnd : Scan Unit := do
  blanks
  comment
  match ← breakLength with
  | 0 => if (← get).isEmpty then return else failure
  | length => skip length

/-- Blanks, line breaks and comments inside of an array. -/
def filler : Nat → Scan Unit
  | 0 => failure
  | fuel + 1 => do
    blanks
    comment
    match ← breakLength with
    | 0 => return
    | length =>
      skip length
      filler fuel

def run? {α : Type} (scan : Scan α) (text : List Char) : Option α :=
  StateT.run' (ReaderT.run scan (text.length + 1)) text

end Scan

end MappingForms.Toml
