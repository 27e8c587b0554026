import MappingForms.Json

/-!
Contract: the tokens of a JSON text.

Owns: the token type and the scanners for strings, numbers and whole texts.

A scanner takes a token off the front of the characters and gives the rest.
-/

set_option autoImplicit false

namespace MappingForms.Json

inductive Token where
  | openObject
  | closeObject
  | openArray
  | closeArray
  | comma
  | colon
  | null
  | bool (value : Bool)
  | number (numeral : Numeral)
  | string (content : Option String)

/-- A character of a string, or a code unit that an escape gives by number. -/
inductive Piece where
  | char (value : Char)
  | unit (value : Nat)

namespace Piece

def isHighSurrogate (unit : Nat) : Bool := 0xD800 ≤ unit && unit < 0xDC00

def isLowSurrogate (unit : Nat) : Bool := 0xDC00 ≤ unit && unit < 0xE000

/-- The character that two surrogates stand for. -/
def paired (high low : Nat) : Char :=
  Char.ofNat (0x10000 + (high - 0xD800) * 0x400 + (low - 0xDC00))

/-- Appends the text of the pieces to the characters read before, last one first.
A surrogate that is not part of a pair leaves no text. -/
def assemble (before : List Char) : List Piece → Option String
  | [] => some (String.ofList before.reverse)
  | char value :: rest => assemble (value :: before) rest
  | [unit value] =>
    if isHighSurrogate value || isLowSurrogate value then none
    else assemble (Char.ofNat value :: before) []
  | unit value :: unit next :: rest =>
    if isHighSurrogate value then
      if isLowSurrogate next then assemble (paired value next :: before) rest else none
    else if isLowSurrogate value then none
    else assemble (Char.ofNat value :: before) (unit next :: rest)
  | unit value :: char next :: rest =>
    if isHighSurrogate value || isLowSurrogate value then none
    else assemble (next :: Char.ofNat value :: before) rest

end Piece

private def hexValue? (c : Char) : Option Nat :=
  if '0' ≤ c ∧ c ≤ '9' then some (c.toNat - '0'.toNat)
  else if 'a' ≤ c ∧ c ≤ 'f' then some (c.toNat - 'a'.toNat + 10)
  else if 'A' ≤ c ∧ c ≤ 'F' then some (c.toNat - 'A'.toNat + 10)
  else none

/-- The code unit that four hexadecimal digits give. -/
def codeUnit? (first second third fourth : Char) : Option Nat := do
  let a ← hexValue? first
  let b ← hexValue? second
  let c ← hexValue? third
  let d ← hexValue? fourth
  return ((a * 16 + b) * 16 + c) * 16 + d

/-- The character that a backslash and a letter stand for. -/
private def escaped? : Char → Option Char
  | '"' => some '"'
  | '\\' => some '\\'
  | '/' => some '/'
  | 'b' => some '\x08'
  | 'f' => some '\x0c'
  | 'n' => some '\n'
  | 'r' => some '\r'
  | 't' => some '\t'
  | _ => none

/-- Scans the pieces of a string up to the closing quote. -/
def scanPieces (before : List Piece) : List Char → Option (List Piece × List Char)
  | [] => none
  | '"' :: rest => some (before.reverse, rest)
  | '\\' :: 'u' :: a :: b :: c :: d :: rest =>
    match codeUnit? a b c d with
    | some unit => scanPieces (.unit unit :: before) rest
    | none => none
  | '\\' :: letter :: rest =>
    match escaped? letter with
    | some c => scanPieces (.char c :: before) rest
    | none => none
  | c :: rest => if c < ' ' || c == '\\' then none else scanPieces (.char c :: before) rest

def scanString (text : List Char) : Option (Token × List Char) :=
  (scanPieces [] text).map fun (pieces, rest) => (.string (Piece.assemble [] pieces), rest)

def scanDigits (text : List Char) : List Nat × List Char :=
  (Numeral.digitsOf (text.takeWhile Char.isDigit), text.dropWhile Char.isDigit)

def scanSomeDigits (text : List Char) : Option (List Nat × List Char) :=
  match scanDigits text with
  | ([], _) => none
  | found => some found

/-- Scans the digits before the point. No other digit follows a zero at the front. -/
def scanWhole : List Char → Option (Nat × List Char)
  | '0' :: rest => some (0, rest)
  | text => (scanSomeDigits text).map fun (digits, rest) => (Numeral.valueOf digits, rest)

/-- Scans a point with digits after it, if there is one. -/
def scanFraction : List Char → Option (Option (List Nat) × List Char)
  | '.' :: rest => (scanSomeDigits rest).map fun (digits, rest) => (some digits, rest)
  | text => some (none, text)

def scanPower : List Char → Option (Int × List Char)
  | '-' :: rest =>
    (scanSomeDigits rest).map fun (digits, rest) => (-(Numeral.valueOf digits : Int), rest)
  | '+' :: rest => (scanSomeDigits rest).map fun (digits, rest) => (Numeral.valueOf digits, rest)
  | text => (scanSomeDigits text).map fun (digits, rest) => (Numeral.valueOf digits, rest)

def scanExponent : List Char → Option (Option Int × List Char)
  | c :: rest =>
    if c == 'e' || c == 'E' then
      (scanPower rest).map fun (power, rest) => (some power, rest)
    else
      some (none, c :: rest)
  | [] => some (none, [])

/-- Scans a number after its sign. -/
def scanNumber (negative : Bool) (text : List Char) : Option (Token × List Char) := do
  let (whole, rest) ← scanWhole text
  let (fraction, rest) ← scanFraction rest
  let (exponent, rest) ← scanExponent rest
  let numeral := match fraction, exponent with
    | none, none => Numeral.integer negative whole
    | fraction, exponent =>
      Numeral.decimal negative whole (fraction.getD []) (exponent.getD 0)
  return (.number numeral, rest)

def scanToken (first : Char) (rest : List Char) : Option (Token × List Char) :=
  match first, rest with
  | '\x7b', rest => some (.openObject, rest)
  | '\x7d', rest => some (.closeObject, rest)
  | '[', rest => some (.openArray, rest)
  | ']', rest => some (.closeArray, rest)
  | ',', rest => some (.comma, rest)
  | ':', rest => some (.colon, rest)
  | 'n', 'u' :: 'l' :: 'l' :: rest => some (.null, rest)
  | 't', 'r' :: 'u' :: 'e' :: rest => some (.bool true, rest)
  | 'f', 'a' :: 'l' :: 's' :: 'e' :: rest => some (.bool false, rest)
  | '"', rest => scanString rest
  | '-', rest => scanNumber true rest
  | first, rest => if first.isDigit then scanNumber false (first :: rest) else none

/-- The characters that may stand between tokens. -/
def isBlank (c : Char) : Bool := c == ' ' || c == '\n' || c == '\t' || c == '\r'

/-! ## Scanners take something off the front -/

private theorem length_scanPieces {before pieces : List Piece} {text rest : List Char}
    (scanned : scanPieces before text = some (pieces, rest)) : rest.length < text.length := by
  fun_induction scanPieces before text <;> simp_all <;> grind

private theorem length_scanSomeDigits {text rest : List Char} {digits : List Nat}
    (scanned : scanSomeDigits text = some (digits, rest)) : rest.length < text.length := by
  unfold scanSomeDigits scanDigits at scanned
  split at scanned
  · contradiction
  · rename_i nonempty
    simp only [Option.some.injEq, Prod.mk.injEq] at scanned
    obtain ⟨taken, rfl⟩ := scanned
    cases text with
    | nil => simp [Numeral.digitsOf] at nonempty
    | cons c text =>
      by_cases digit : c.isDigit
      · have shorter := (List.dropWhile_suffix Char.isDigit (l := text)).length_le
        simp only [List.dropWhile_cons, digit, if_true, List.length_cons]
        omega
      · simp [Numeral.digitsOf, digit] at nonempty

private theorem length_scanWhole {text rest : List Char} {value : Nat}
    (scanned : scanWhole text = some (value, rest)) : rest.length < text.length := by
  unfold scanWhole at scanned
  split at scanned
  · simp_all
  · simp only [Option.map_eq_some_iff] at scanned
    obtain ⟨⟨digits, after⟩, found, equal⟩ := scanned
    have shorter := length_scanSomeDigits found
    simp_all

private theorem length_scanFraction {text rest : List Char} {digits : Option (List Nat)}
    (scanned : scanFraction text = some (digits, rest)) : rest.length ≤ text.length := by
  unfold scanFraction at scanned
  split at scanned
  · simp only [Option.map_eq_some_iff] at scanned
    obtain ⟨⟨digits, after⟩, found, equal⟩ := scanned
    have shorter := length_scanSomeDigits found
    simp only [Prod.mk.injEq] at equal
    simp only [List.length_cons, ← equal.2]
    omega
  · simp_all

private theorem length_scanPower {text rest : List Char} {power : Int}
    (scanned : scanPower text = some (power, rest)) : rest.length < text.length := by
  unfold scanPower at scanned
  split at scanned <;>
  · simp only [Option.map_eq_some_iff] at scanned
    obtain ⟨⟨digits, after⟩, found, equal⟩ := scanned
    have shorter := length_scanSomeDigits found
    simp only [Prod.mk.injEq] at equal
    simp only [List.length_cons, ← equal.2]
    omega

private theorem length_scanExponent {text rest : List Char} {power : Option Int}
    (scanned : scanExponent text = some (power, rest)) : rest.length ≤ text.length := by
  unfold scanExponent at scanned
  split at scanned
  · split at scanned
    · simp only [Option.map_eq_some_iff] at scanned
      obtain ⟨⟨digits, after⟩, found, equal⟩ := scanned
      have shorter := length_scanPower found
      simp only [Prod.mk.injEq] at equal
      simp only [List.length_cons, ← equal.2]
      omega
    · simp_all
  · simp_all

private theorem length_scanNumber {negative : Bool} {text rest : List Char} {token : Token}
    (scanned : scanNumber negative text = some (token, rest)) : rest.length < text.length := by
  simp only [scanNumber, Option.bind_eq_bind, Option.bind_eq_some_iff, Option.pure_def,
    Option.some.injEq, Prod.mk.injEq] at scanned
  obtain ⟨⟨whole, first⟩, wholeScanned, ⟨fraction, second⟩, fractionScanned,
    ⟨exponent, third⟩, exponentScanned, -, rfl⟩ := scanned
  have := length_scanWhole wholeScanned
  have := length_scanFraction fractionScanned
  have := length_scanExponent exponentScanned
  dsimp only at *
  omega

private theorem length_scanToken {first : Char} {text rest : List Char} {token : Token}
    (scanned : scanToken first text = some (token, rest)) : rest.length ≤ text.length := by
  unfold scanToken at scanned
  split at scanned
  case h_10 =>
    simp only [scanString, Option.map_eq_some_iff] at scanned
    obtain ⟨⟨pieces, after⟩, found, equal⟩ := scanned
    have shorter := length_scanPieces found
    simp only [Prod.mk.injEq] at equal
    simp only [← equal.2]
    omega
  case h_11 => exact Nat.le_of_lt (length_scanNumber scanned)
  case h_12 =>
    split at scanned
    · exact Nat.le_of_lt_succ (length_scanNumber scanned)
    · contradiction
  all_goals
    simp only [Option.some.injEq, Prod.mk.injEq] at scanned
    obtain ⟨-, rfl⟩ := scanned
    simp <;> omega

/-- Scans a whole text, after the given tokens, last one first. -/
def scanAll (before : List Token) (text : List Char) : Option (List Token) :=
  match text with
  | [] => some before.reverse
  | first :: rest =>
    if isBlank first then scanAll before rest
    else match _scanned : scanToken first rest with
      | some (token, after) => scanAll (token :: before) after
      | none => none
termination_by text.length
decreasing_by
  · simp
  · have := length_scanToken _scanned
    simp only [List.length_cons]
    omega

def tokens? (text : String) : Option (List Token) := scanAll [] text.toList

end MappingForms.Json
