import MappingForms.Toml.Scan

/-!
Contract: strings and keys in a TOML text.

Owns: the scanners for the four kinds of strings, and for keys with dots between their
parts.
-/

set_option autoImplicit false

namespace MappingForms.Toml.Scan

/-! ## Strings -/

def hexDigit : Scan Nat := do
  let c ← next
  if '0' ≤ c ∧ c ≤ '9' then return c.toNat - '0'.toNat
  else if 'a' ≤ c ∧ c ≤ 'f' then return c.toNat - 'a'.toNat + 10
  else if 'A' ≤ c ∧ c ≤ 'F' then return c.toNat - 'A'.toNat + 10
  else failure

private def coded (count : Nat) : Scan Char := do
  let mut code := 0
  for _ in List.range count do
    code := code * 16 + (← hexDigit)
  if code.isValidChar then return Char.ofNat code else failure

/-- What a backslash stands for, after the backslash. -/
def escape : Scan Char := do
  match ← next with
  | 'b' => return '\x08'
  | 't' => return '\t'
  | 'n' => return '\n'
  | 'f' => return '\x0c'
  | 'r' => return '\r'
  | '"' => return '"'
  | '\\' => return '\\'
  | 'u' => coded 4
  | 'U' => coded 8
  | _ => failure

/-- The rest of a string in double quotes on one line. -/
private def basic (before : List Char) : Nat → Scan String
  | 0 => failure
  | fuel + 1 => do
    match ← next with
    | '"' => return String.ofList before.reverse
    | '\\' => basic ((← escape) :: before) fuel
    | c => if isPlain c then basic (c :: before) fuel else failure

def literal : Scan String := do
  let content ← takeWhile fun c => isPlain c && c != '\''
  expect "'"
  return String.ofList content

private def skipBreak : Scan Unit := do
  skip (← breakLength)

private def skipLines : Nat → Scan Unit
  | 0 => failure
  | fuel + 1 => do
    blanks
    match ← breakLength with
    | 0 => return
    | length =>
      skip length
      skipLines fuel

/-- Whether only blanks come before the next line break. -/
private def atLineEnd : Scan Bool := do
  let text ← get
  match text.dropWhile isBlank with
  | '\n' :: _ => return true
  | '\r' :: '\n' :: _ => return true
  | _ => return false

/-- How many quotes of a run belong to the content, if the run ends the string: three
of them close it and at most two may stand before those. -/
def closing (run : Nat) : Option Nat := if run < 3 then none else some (min (run - 3) 2)

/-- The rest of a string over several lines. With double quotes, escapes count and a
backslash at the end of a line joins it with the next. -/
private def multiline (quote : Char) (before : List Char) : Nat → Scan String
  | 0 => failure
  | fuel + 1 => do
    let quotes := ((← get).takeWhile (· == quote)).length
    if quotes > 0 then
      match closing quotes with
      | some kept =>
        skip (kept + 3)
        return String.ofList (List.replicate kept quote ++ before).reverse
      | none =>
        skip quotes
        multiline quote (List.replicate quotes quote ++ before) fuel
    else
      match ← breakLength with
      | 0 =>
        let c ← next
        if c == '\\' && quote == '"' then
          if ← atLineEnd then
            skipLines (← steps)
            multiline quote before fuel
          else
            multiline quote ((← escape) :: before) fuel
        else if isPlain c then multiline quote (c :: before) fuel
        else failure
      | length =>
        skip length
        multiline quote ('\n' :: before) fuel

def basicString : Scan String := do
  expect "\""
  basic [] (← steps)

def literalString : Scan String := do
  expect "'"
  literal

def string : Scan String := do
  if ← startsWith "\"\"\"" then
    skip 3
    skipBreak
    multiline '"' [] (← steps)
  else if ← startsWith "'''" then
    skip 3
    skipBreak
    multiline '\'' [] (← steps)
  else if ← startsWith "'" then literalString
  else basicString

/-! ## Keys -/

private def isBareKey (c : Char) : Bool := c.isAlphanum || c == '_' || c == '-'

private def simpleKey : Scan String := do
  match ← peek with
  | some '"' => basicString
  | some '\'' => literalString
  | _ =>
    match ← takeWhile isBareKey with
    | [] => failure
    | name => return String.ofList name

/-- The parts of a key after those before, last one first. -/
private def keyParts (before : List String) : Nat → Scan (List String)
  | 0 => failure
  | fuel + 1 => do
    blanks
    let part ← simpleKey
    blanks
    if ← startsWith "." then
      skip 1
      keyParts (part :: before) fuel
    else
      return (part :: before).reverse

private def keyLimit : Nat := 80

def key : Scan (List String) := do
  let parts ← keyParts [] (← steps)
  if parts.length < keyLimit then return parts else failure

end MappingForms.Toml.Scan
