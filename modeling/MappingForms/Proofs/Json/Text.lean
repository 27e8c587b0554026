import MappingForms.Json.Reader
import MappingForms.Json.Writer
import MappingForms.Proofs.Json.Numeral

/-!
Contract: a JSON value is read back from the text that is written for it.

Owns: the tokens of a value, that its text scans as these tokens, and that the machine builds the
value from them.

A text is scanned whatever comes after it, except that digits after a number would go on with it.
The text up to a value always ends in a bracket, a comma or a colon, and so does not get in the way
of a number.
-/

set_option autoImplicit false

namespace MappingForms.Json

/-! ## Tokens of a value -/

mutual

def tokens (json : Json) : List Token :=
  match json with
  | null => [.null]
  | bool value => [.bool value]
  | number numeral => [.number numeral]
  | string content => [.string content]
  | array elements => .openArray :: (elementTokens elements [] ++ [.closeArray])
  | object members => .openObject :: (memberTokens members [] ++ [.closeObject])
termination_by structural json

def elementTokens (elements : List Json) (separator : List Token) : List Token :=
  match elements with
  | [] => []
  | first :: rest => separator ++ first.tokens ++ elementTokens rest [.comma]
termination_by structural elements

def memberTokens (members : List (Option String × Json)) (separator : List Token) : List Token :=
  match members with
  | [] => []
  | (key, value) :: rest =>
    separator ++ [.string key, .colon] ++ value.tokens ++ memberTokens rest [.comma]
termination_by structural members

end

/-! ## Building a value -/

/-- In a new array, a value starts as if an element had to follow. -/
theorem foldlM_firstElement (json : Json) (frames : List Frame) (rest : List Token) :
    (json.tokens ++ rest).foldlM advance? ⟨.firstElement, frames⟩ =
      (json.tokens ++ rest).foldlM advance? ⟨.value, .array [] :: frames⟩ := by
  cases json <;> rfl

/-- The machine builds the value from its tokens, inside of any frames. -/
def Builds (json : Json) : Prop :=
  ∀ (frames : List Frame) (rest : List Token),
    (json.tokens ++ rest).foldlM advance? ⟨.value, frames⟩ =
      rest.foldlM advance? ⟨.next json, frames⟩

private theorem foldlM_elementTokens {elements : List Json}
    (build : ∀ element ∈ elements, element.Builds)
    (value : Json) (before : List Json) (frames : List Frame) (rest : List Token) :
    (elementTokens elements [.comma] ++ .closeArray :: rest).foldlM advance?
        ⟨.next value, .array before :: frames⟩ =
      rest.foldlM advance? ⟨.next (.array (before.reverse ++ value :: elements)), frames⟩ := by
  induction elements generalizing value before with
  | nil =>
    show rest.foldlM advance? ⟨.next (.array (value :: before).reverse), frames⟩ = _
    rw [List.reverse_cons]
  | cons first others inductionHypothesis =>
    rw [List.forall_mem_cons] at build
    rw [elementTokens, List.append_assoc, List.append_assoc]
    show (first.tokens ++ (elementTokens others [.comma] ++ .closeArray :: rest)).foldlM advance?
      ⟨.value, .array (value :: before) :: frames⟩ = _
    rw [build.1, inductionHypothesis build.2, List.reverse_cons, List.append_assoc,
      List.singleton_append]

private theorem foldlM_memberTokens {members : List (Option String × Json)}
    (build : ∀ member ∈ members, member.2.Builds) (key : Option String) (value : Json)
    (before : List (Option String × Json)) (frames : List Frame) (rest : List Token) :
    (memberTokens members [.comma] ++ .closeObject :: rest).foldlM advance?
        ⟨.next value, .object before key :: frames⟩ =
      rest.foldlM advance?
        ⟨.next (.object (before.reverse ++ (key, value) :: members)), frames⟩ := by
  induction members generalizing key value before with
  | nil =>
    show rest.foldlM advance? ⟨.next (.object ((key, value) :: before).reverse), frames⟩ = _
    rw [List.reverse_cons]
  | cons first others inductionHypothesis =>
    obtain ⟨nextKey, nextValue⟩ := first
    rw [List.forall_mem_cons] at build
    rw [memberTokens, List.append_assoc, List.append_assoc, List.append_assoc]
    show (nextValue.tokens ++ (memberTokens others [.comma] ++ .closeObject :: rest)).foldlM
      advance? ⟨.value, .object ((key, value) :: before) nextKey :: frames⟩ = _
    rw [build.1, inductionHypothesis build.2, List.reverse_cons, List.append_assoc,
      List.singleton_append]

private theorem builds (json : Json) : json.Builds := by
  induction json using induction_on_parts with
  | step json inductionHypothesis =>
    intro frames rest
    cases json with
    | array elements =>
      cases elements with
      | nil => rfl
      | cons first others =>
        -- No comma comes before the first element, so it is built apart from the others.
        have build : ∀ element ∈ first :: others, element.Builds := inductionHypothesis
        rw [List.forall_mem_cons] at build
        rw [tokens, elementTokens, List.nil_append, List.cons_append, List.append_assoc,
          List.append_assoc]
        show (first.tokens ++ (elementTokens others [.comma] ++ .closeArray :: rest)).foldlM
          advance? ⟨.firstElement, frames⟩ = _
        rw [foldlM_firstElement, build.1, foldlM_elementTokens build.2]
        rfl
    | object members =>
      cases members with
      | nil => rfl
      | cons first others =>
        obtain ⟨key, value⟩ := first
        have build : ∀ member ∈ (key, value) :: others, member.2.Builds :=
          fun member listed => inductionHypothesis member.2 (List.mem_map_of_mem listed)
        rw [List.forall_mem_cons] at build
        rw [tokens, memberTokens, List.nil_append, List.cons_append, List.append_assoc,
          List.append_assoc, List.append_assoc]
        show (value.tokens ++ (memberTokens others [.comma] ++ .closeObject :: rest)).foldlM
          advance? ⟨.value, .object [] key :: frames⟩ = _
        rw [build.1, foldlM_memberTokens build.2]
        rfl
    | _ => rfl

private theorem ofTokens?_tokens (json : Json) : ofTokens? json.tokens = some json := by
  have built := json.builds [] []
  rw [List.append_nil] at built
  rw [ofTokens?, built]
  rfl

/-! ## Strings -/

namespace Piece

/-- A piece that stands for one character. Control characters may be given by their number. -/
inductive StandsFor : Piece → Char → Prop
  | char (c : Char) : StandsFor (char c) c
  | control {c : Char} (control : c < ' ') : StandsFor (unit c.toNat) c

private theorem assemble_cons {piece : Piece} {c : Char} (stands : piece.StandsFor c)
    (before : List Char)
    (rest : List Piece) : assemble before (piece :: rest) = assemble (c :: before) rest := by
  cases stands with
  | char => rw [assemble]
  | control control =>
    have small : c.toNat < 32 := control
    have noSurrogate : isHighSurrogate c.toNat = false ∧ isLowSurrogate c.toNat = false := by
      simp [isHighSurrogate, isLowSurrogate]
      omega
    cases rest with
    | nil => simp [assemble, noSurrogate]
    | cons next rest => cases next <;> simp [assemble, noSurrogate]

end Piece

private theorem scanPieces_plain {c : Char} (noQuote : c ≠ '"') (noBackslash : c ≠ '\\')
    (plain : ¬c < ' ') (before : List Piece) (rest : List Char) :
    scanPieces before (c :: rest) = scanPieces (.char c :: before) rest := by
  rw [scanPieces]
  · simp [plain, noBackslash]
  all_goals
    intros
    simp_all

private theorem scanPieces_codeUnit {a b c d : Char} {value : Nat}
    (given : codeUnit? a b c d = some value) (before : List Piece) (rest : List Char) :
    scanPieces before ('\\' :: 'u' :: a :: b :: c :: d :: rest) =
      scanPieces (.unit value :: before) rest := by
  rw [scanPieces, given]

/-- An escaped character is scanned as one piece that stands for it. -/
theorem scanPieces_escape (c : Char) :
    ∃ piece, Piece.StandsFor piece c ∧ ∀ before rest,
      scanPieces before ((escape c).toList ++ rest) = scanPieces (piece :: before) rest := by
  unfold escape
  split
  case h_8 noQuote noBackslash _ _ _ _ _ =>
    split
    next control =>
      have small : c.toNat < 32 := control
      have unitBack : ∀ value < 32,
          codeUnit? '0' '0' (hexDigit (value / 16)) (hexDigit (value % 16)) = some value := by
        decide
      refine ⟨_, .control control, fun before rest => ?_⟩
      rw [String.toList_append, String.toList_ofList, String.toList_ofList]
      exact scanPieces_codeUnit (unitBack c.toNat small) before rest
    next plain =>
      refine ⟨_, .char c, fun before rest => ?_⟩
      rw [Char.toString, String.toList_singleton]
      exact scanPieces_plain noQuote noBackslash plain before rest
  all_goals exact ⟨_, .char _, fun before rest => rfl⟩

private theorem toList_quoted (content : String) :
    (quoted content).toList =
      '"' :: (content.toList.flatMap (fun c => (escape c).toList) ++ ['"']) := by
  have folded (chars : List Char) (output : String) :
      (chars.foldl (fun output c => output ++ escape c) output).toList =
        output.toList ++ chars.flatMap fun c => (escape c).toList := by
    induction chars generalizing output with
    | nil => simp
    | cons c rest inductionHypothesis =>
      rw [List.foldl_cons, inductionHypothesis, String.toList_append, List.flatMap_cons,
        List.append_assoc]
  rw [quoted, String.toList_append, folded]
  rfl

private theorem scanPieces_escapes (chars : List Char) :
    ∃ pieces, (∀ start, Piece.assemble start pieces = some (String.ofList (start.reverse ++ chars)))
      ∧ ∀ before rest,
        scanPieces before (chars.flatMap (fun c => (escape c).toList) ++ '"' :: rest) =
          some (before.reverse ++ pieces, rest) := by
  induction chars with
  | nil =>
    refine ⟨[], fun start => ?_, fun before rest => ?_⟩
    · rw [Piece.assemble, List.append_nil]
    · rw [List.append_nil]
      rfl
  | cons c chars inductionHypothesis =>
    obtain ⟨pieces, assembled, scanned⟩ := inductionHypothesis
    obtain ⟨piece, stands, pieceScanned⟩ := scanPieces_escape c
    refine ⟨piece :: pieces, fun start => ?_, fun before rest => ?_⟩
    · rw [Piece.assemble_cons stands, assembled, List.reverse_cons, List.append_assoc]
      rfl
    · rw [List.flatMap_cons, List.append_assoc, pieceScanned, scanned, List.reverse_cons,
        List.append_assoc]
      rfl

private theorem scanString_quoted (content : String) (rest : List Char) :
    scanString (content.toList.flatMap (fun c => (escape c).toList) ++ '"' :: rest) =
      some (.string (some content), rest) := by
  obtain ⟨pieces, assembled, scanned⟩ := scanPieces_escapes content.toList
  rw [scanString, scanned]
  show some (Token.string (Piece.assemble [] pieces), rest) = _
  rw [assembled, List.reverse_nil, List.nil_append, String.ofList_toList]

/-! ## Scanning a written value -/

private theorem scanAll_cons {first : Char} {text rest : List Char} {token : Token}
    (notBlank : isBlank first = false) (scanned : scanToken first text = some (token, rest))
    (before : List Token) : scanAll before (first :: text) = scanAll (token :: before) rest := by
  rw [scanAll, notBlank, if_neg Bool.false_ne_true]
  split
  next other after same =>
    obtain ⟨rfl, rfl⟩ := Prod.mk.inj (Option.some.inj (scanned.symm.trans same))
    rfl
  next none => cases scanned.symm.trans none

/-- A word is scanned as one token, whatever comes after it. -/
def IsLexeme (word : String) (token : Token) : Prop :=
  ∀ before rest, scanAll before (word.toList ++ rest) = scanAll (token :: before) rest

private theorem isLexeme_of {word : String} {token : Token} {first : Char} {others : List Char}
    (spelled : word.toList = first :: others) (notBlank : isBlank first = false)
    (scanned : ∀ rest, scanToken first (others ++ rest) = some (token, rest)) :
    IsLexeme word token := by
  intro before rest
  rw [spelled]
  exact scanAll_cons notBlank (scanned rest) before

private theorem isLexeme_comma : IsLexeme "," .comma := isLexeme_of rfl rfl fun _ => rfl

private theorem isLexeme_quoted (content : String) :
    IsLexeme (quoted content) (.string (some content)) := by
  refine isLexeme_of (toList_quoted content) rfl fun rest => ?_
  rw [List.append_assoc]
  exact scanString_quoted content rest

private theorem scanToken_of_isDigit {first : Char} (digit : first.isDigit = true)
    (rest : List Char) :
    scanToken first rest = scanNumber false (first :: rest) := by
  unfold scanToken
  split
  case h_12 => rw [digit, if_pos rfl]
  all_goals cases digit

private theorem scanAll_text {numeral : Numeral} (written : numeral.IsDecimal) (before : List Token)
    {rest : List Char} (ends : Source.startsWith Numeral.extendsNumber rest = false) :
    scanAll before (numeral.text.toList ++ rest) = scanAll (.number numeral :: before) rest := by
  have scanned := Numeral.scanNumber_unsignedText written ends
  rw [Numeral.toList_text written, List.append_assoc]
  cases isNegative : numeral.isNegative with
  | true =>
    rw [isNegative] at scanned
    have scannedToken : scanToken '-' _ = _ := scanned
    exact scanAll_cons rfl scannedToken before
  | false =>
    obtain ⟨first, others, spelled, digit⟩ := numeral.exists_unsignedText_cons
    have notBlank : isBlank first = false := by
      cases blank : isBlank first with
      | false => rfl
      | true =>
        simp only [isBlank, Bool.or_eq_true, beq_iff_eq] at blank
        rcases blank with ((rfl | rfl) | rfl) | rfl <;> cases digit
    rw [isNegative, spelled] at scanned
    rw [spelled]
    exact scanAll_cons notBlank ((scanToken_of_isDigit digit _).trans scanned) before

/-- The output scans as the tokens, whatever comes after it. -/
def Scans (output : String) (tokens : List Token) : Prop :=
  ∀ rest, scanAll [] (output.toList ++ rest) = scanAll tokens.reverse rest

/-- The output scans as the tokens, unless what comes after it goes on with a number. -/
def ScansToEnd (output : String) (tokens : List Token) : Prop :=
  ∀ rest, Source.startsWith Numeral.extendsNumber rest = false →
    scanAll [] (output.toList ++ rest) = scanAll tokens.reverse rest

section Scans

variable {output word : String} {before : List Token} {token : Token}

private theorem Scans.toEnd (scans : Scans output before) : ScansToEnd output before :=
  fun rest _ => scans rest

private theorem Scans.append_empty (scans : Scans output before) :
    Scans (output ++ "") (before ++ []) := by
  rwa [String.append_empty, List.append_nil]

/-- A word that is a token of its own may follow complete output. -/
theorem Scans.append (scans : Scans output before) (lexeme : IsLexeme word token) :
    Scans (output ++ word) (before ++ [token]) := by
  intro rest
  rw [String.toList_append, List.append_assoc, scans, lexeme, List.reverse_append]
  rfl

/-- A bracket or a comma ends a number. -/
theorem ScansToEnd.append (scans : ScansToEnd output before) (lexeme : IsLexeme word token)
    (ends : ∀ rest, Source.startsWith Numeral.extendsNumber (word.toList ++ rest) = false) :
    Scans (output ++ word) (before ++ [token]) := by
  intro rest
  rw [String.toList_append, List.append_assoc, scans _ (ends rest), lexeme, List.reverse_append]
  rfl

/-- After a number the output is complete, unless more digits follow. -/
theorem Scans.number (scans : Scans output before) {numeral : Numeral}
    (written : numeral.IsDecimal) :
    ScansToEnd (output ++ numeral.text) (before ++ [.number numeral]) := by
  intro rest ends
  rw [String.toList_append, List.append_assoc, scans, scanAll_text written _ ends,
    List.reverse_append]
  rfl

end Scans

/-- The text of the value scans as its tokens wherever the text before it is complete. -/
def Legible (json : Json) : Prop :=
  ∀ {output : String} {before : List Token}, Scans output before →
    ScansToEnd (json.writeTo output) (before ++ json.tokens)

private theorem scansToEnd_writeElementsTo {elements : List Json}
    (legible : ∀ element ∈ elements, element.Legible) {output separator : String}
    {before separating : List Token} (scans : ScansToEnd output before)
    (separated : Scans (output ++ separator) (before ++ separating)) :
    ScansToEnd (writeElementsTo elements separator output)
      (before ++ elementTokens elements separating) := by
  induction elements generalizing output separator before separating with
  | nil => rwa [writeElementsTo, elementTokens, List.append_nil]
  | cons first rest inductionHypothesis =>
    rw [List.forall_mem_cons] at legible
    -- The element may end in a number. The comma that comes next completes it.
    have firstScans := legible.1 separated
    rw [writeElementsTo, elementTokens, ← List.append_assoc, ← List.append_assoc]
    exact inductionHypothesis legible.2 firstScans
      (firstScans.append isLexeme_comma fun _ => rfl)

private theorem scansToEnd_writeMembersTo {members : List (String × Json)}
    (legible : ∀ member ∈ members, member.2.Legible) {output separator : String}
    {before separating : List Token} (scans : ScansToEnd output before)
    (separated : Scans (output ++ separator) (before ++ separating)) :
    ScansToEnd (writeMembersTo (members.map fun (key, value) => (some key, value)) separator output)
      (before ++ memberTokens (members.map fun (key, value) => (some key, value)) separating) := by
  induction members generalizing output separator before separating with
  | nil => rwa [List.map_nil, writeMembersTo, memberTokens, List.append_nil]
  | cons first rest inductionHypothesis =>
    obtain ⟨key, value⟩ := first
    rw [List.forall_mem_cons] at legible
    have keyScans : Scans (output ++ separator ++ quotedContent (some key) ++ ":")
        (before ++ separating ++ [.string (some key)] ++ [.colon]) :=
      (separated.append (isLexeme_quoted key)).append (isLexeme_of rfl rfl fun _ => rfl)
    have firstScans := legible.1 keyScans
    have tokensEq : before ++ separating ++ [.string (some key)] ++ [.colon] ++ value.tokens =
        before ++ (separating ++ [.string (some key), .colon] ++ value.tokens) := by
      simp only [List.append_assoc, List.cons_append, List.nil_append]
    rw [tokensEq] at firstScans
    rw [List.map_cons, writeMembersTo, memberTokens, ← List.append_assoc]
    exact inductionHypothesis legible.2 firstScans
      (firstScans.append isLexeme_comma fun _ => rfl)

private theorem Plain.legible {json : Json} (plain : json.Plain Numeral.IsDecimal) :
    json.Legible := by
  intro output before scans
  induction plain generalizing output before with
  | null => exact (scans.append (isLexeme_of rfl rfl fun _ => rfl)).toEnd
  | bool value =>
    have lexeme : IsLexeme (if value then "true" else "false") (.bool value) := by
      cases value <;> exact isLexeme_of rfl rfl fun _ => rfl
    exact (scans.append lexeme).toEnd
  | number written => exact scans.number written
  | text content => exact (scans.append (isLexeme_quoted content)).toEnd
  | array _ inductionHypothesis =>
    have opened : Scans (output ++ "[") (before ++ [.openArray]) :=
      scans.append (isLexeme_of rfl rfl fun _ => rfl)
    have elementsScan := scansToEnd_writeElementsTo
      (fun element listed => inductionHypothesis element listed) opened.toEnd opened.append_empty
    have closing : IsLexeme "]" .closeArray := isLexeme_of rfl rfl fun _ => rfl
    have closed := elementsScan.append closing fun _ => rfl
    rw [List.append_assoc, List.append_assoc] at closed
    exact closed.toEnd
  | record _ inductionHypothesis =>
    have opened : Scans (output ++ "\x7b") (before ++ [.openObject]) :=
      scans.append (isLexeme_of rfl rfl fun _ => rfl)
    have membersScan := scansToEnd_writeMembersTo
      (fun member listed => inductionHypothesis member listed) opened.toEnd opened.append_empty
    have closing : IsLexeme "\x7d" .closeObject := isLexeme_of rfl rfl fun _ => rfl
    have closed := membersScan.append closing fun _ => rfl
    rw [List.append_assoc, List.append_assoc] at closed
    exact closed.toEnd

/-- A value whose numbers are decimal is read back from its text. -/
theorem Plain.parse?_compact {json : Json} (plain : json.Plain Numeral.IsDecimal) :
    parse? json.compact = some json := by
  have nothing : Scans "" [] := fun _ => rfl
  have scanned := plain.legible nothing [] rfl
  rw [List.append_nil, List.nil_append, scanAll, List.reverse_reverse] at scanned
  rw [parse?, tokens?, compact, scanned, Option.bind_some, ofTokens?_tokens]

end MappingForms.Json
