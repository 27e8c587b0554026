import MappingForms.Proofs.Source.Surface

/-!
Contract: a reader of expressions for generated source.

Owns: what an operand starts with, what links an operand to the text after it, and the reader
of expressions by precedence.

An operand is read together with all links that bind at least as tightly as its place demands.
Every step must leave a shorter text, so the reader needs no bound on its depth.
-/

set_option autoImplicit false

namespace MappingForms

namespace Source

/-! ### Operands and links -/

/-- What an operand starts with. -/
inductive Head where
  | literal (value : Literal)
  | typedNull (type : String)
  | name (spelling : String)
  | lambda (parameter : String)
  | parenthesis
  | raise
  | construct (type : String)

/-- The doubles that are written as members of their type. -/
def specialNumber (member : String) : Binary64 :=
  if member = "NaN" then .nan
  else if member = "PositiveInfinity" then .infinity
  else Binary64.neg .infinity

/-- An operand that starts with a name: the name itself, or a function of it. -/
def nameHead (name : String) (rest : List Char) : Head × List Char :=
  match mark? " => " rest with
  | some (_, body) => (.lambda name, body)
  | none => (.name name, rest)

/-- An operand that starts with a word. -/
def wordHead? (word : String) (rest : List Char) : Option (Head × List Char) :=
  if word = "" then none
  else if word = "null" then some (.literal .null, rest)
  else if word = "true" then some (.literal (.bool true), rest)
  else if word = "false" then some (.literal (.bool false), rest)
  else if word = "double" then
    some (.literal (.float (specialNumber (wordAt rest.tail))), afterWord rest.tail)
  else if word = "new" then some (.construct (typeAt rest.tail).1, (typeAt rest.tail).2)
  else if word = "throw" then some (.raise, rest.tail)
  else some (nameHead word rest)

def head? (decode : List Char → Option Literal) : List Char → Option (Head × List Char)
  | [] => none
  | c :: rest =>
    if c = '(' then
      match castType? rest with
      | some (type, rest) => some (.typedNull type, rest)
      | none => some (.parenthesis, rest)
    else if c = '"' then
      (unquote? rest).map fun found => (.literal (.string (String.ofList found.1)), found.2)
    else if c.isDigit || c == '-' then
      (decode (scanNumeral (c :: rest)).1).map fun value =>
        (.literal value, (scanNumeral (c :: rest)).2)
    else wordHead? (wordAt (c :: rest)) (afterWord (c :: rest))

inductive Link where
  | access (optional : Bool) (member : String)
  | arguments
  | binary (op : BinaryOp)
  | coalesce
  | conditional

def Link.precedence : Link → Precedence
  | access .. | arguments => .primary
  | binary op => .ofOp op
  | coalesce => .coalesce
  | conditional => .conditional

/-- The links between two operands, each with its mark. -/
def infixes : List (String × Link) :=
  [(" + ", .binary .add), (" - ", .binary .subtract), (" * ", .binary .multiply),
    (" / ", .binary .divide), (" % ", .binary .remainder), (" == ", .binary .equal),
    (" != ", .binary .notEqual), (" < ", .binary .less), (" <= ", .binary .lessOrEqual),
    (" > ", .binary .greater), (" >= ", .binary .greaterOrEqual), (" && ", .binary .and),
    (" || ", .binary .or), (" ?? ", .coalesce), (" ? ", .conditional)]

def link? (cs : List Char) : Option (Link × List Char) :=
  match cs with
  | '.' :: rest => some (.access false (wordAt rest), afterWord rest)
  | '?' :: '.' :: rest => some (.access true (wordAt rest), afterWord rest)
  | '(' :: rest => some (.arguments, rest)
  | _ => infixes.findSome? fun found => (mark? found.1 cs).map fun after => (found.2, after.2)

/-! ### Lines of a block -/

/-- The text after a line break, indentation and a mark. -/
def onNewLine? (mark : String) (cs : List Char) : Option (Unit × List Char) := do
  let (_, line) ← mark? "\n" cs
  mark? mark (line.dropWhile (· == ' '))

/-- The member that a line of a block sets. -/
def assigned? (cs : List Char) : Option (String × List Char) := do
  let (_, indented) ← mark? "\n" cs
  let line := indented.dropWhile (· == ' ')
  let (_, value) ← mark? " = " (afterWord line)
  some (wordAt line, value)

/-! ### Expressions -/

/-- A result is kept only if the text that remains is shorter. -/
def advancing {α : Type} (cs : List Char) :
    Option (α × List Char) → Option (α × { rest : List Char // rest.length < cs.length })
  | some (found, rest) =>
    if shorter : rest.length < cs.length then some (found, ⟨rest, shorter⟩) else none
  | none => none

@[simp]
theorem advancing_none {α : Type} (cs : List Char) :
    advancing cs (none : Option (α × List Char)) = none := rfl

private theorem advancing_some {α : Type} {cs rest : List Char} (found : α)
    (shorter : rest.length < cs.length) :
    advancing cs (some (found, rest)) = some (found, ⟨rest, shorter⟩) :=
  dif_pos shorter

section

variable (decode : List Char → Option Literal)

mutual

/-- Reads an operand and the links that bind at least as tightly as given. -/
def readAt (least : Precedence) (cs : List Char) : Option (Surface × List Char) := do
  let (atom, rest) ← advancing cs (readOperand cs)
  readLinks least atom rest.val
termination_by (cs.length, 1)
decreasing_by
  · exact Prod.Lex.right _ (by decide)
  · exact Prod.Lex.left _ _ rest.property

/-- Reads an operand without the links after it. -/
def readOperand (cs : List Char) : Option (Surface × List Char) := do
  let (head, rest) ← advancing cs (head? decode cs)
  match head with
  | .literal value => some (.literal value, rest.val)
  | .typedNull type => some (.typedNull type, rest.val)
  | .name spelling => some (.name spelling, rest.val)
  | .lambda parameter => do
    let (body, after) ← readAt .conditional rest.val
    some (.lambda parameter body, after)
  | .raise => do
    let (exception, after) ← readAt .coalesce rest.val
    some (.raise exception, after)
  | .parenthesis => do
    let (inner, closing) ← readAt .conditional rest.val
    let (_, after) ← mark? ")" closing
    some (inner, after)
  | .construct type =>
    match advancing rest.val (mark? "(" rest.val) with
    | none => readMembers type [] rest.val
    | some (_, inside) => do
      let (arguments, after) ← advancing inside.val (readArguments inside.val)
      readMembers type arguments after.val
termination_by (cs.length, 0)
decreasing_by
  · exact Prod.Lex.left _ _ rest.property
  · exact Prod.Lex.left _ _ rest.property
  · exact Prod.Lex.left _ _ rest.property
  · exact Prod.Lex.left _ _ rest.property
  · exact Prod.Lex.left _ _ (inside.property.trans rest.property)
  · exact Prod.Lex.left _ _ (after.property.trans (inside.property.trans rest.property))

/-- Reads the block of a construction, if there is one. -/
def readMembers (type : String) (arguments : List Surface) (cs : List Char) :
    Option (Surface × List Char) :=
  match advancing cs (onNewLine? "\x7b" cs) with
  | none => some (.construct type arguments [], cs)
  | some (_, inside) => do
    let (initializers, after) ← readInitializers inside.val
    some (.construct type arguments initializers, after)
termination_by (cs.length, 0)
decreasing_by exact Prod.Lex.left _ _ inside.property

def readLinks (least : Precedence) (left : Surface) (cs : List Char) :
    Option (Surface × List Char) :=
  match advancing cs (link? cs) with
  | none => some (left, cs)
  | some (link, rest) =>
    if link.precedence.level < least.level then some (left, cs)
    else
      match link with
      | .access optional member => readLinks least (.access left optional member) rest.val
      | .arguments => do
        let (arguments, after) ← advancing rest.val (readArguments rest.val)
        readLinks least (.invoke left arguments) after.val
      | .binary op => do
        let (right, after) ← advancing rest.val (readAt (Precedence.ofOp op).tighter rest.val)
        readLinks least (.binary op left right) after.val
      | .coalesce => do
        let (right, after) ← advancing rest.val (readAt .coalesce rest.val)
        readLinks least (.coalesce left right) after.val
      | .conditional => do
        let (whenTrue, colon) ← advancing rest.val (readAt .coalesce rest.val)
        let (_, other) ← advancing colon.val (mark? " : " colon.val)
        let (whenFalse, after) ← advancing other.val (readAt .conditional other.val)
        readLinks least (.conditional left whenTrue whenFalse) after.val
termination_by (cs.length, 0)
decreasing_by
  · exact Prod.Lex.left _ _ rest.property
  · exact Prod.Lex.left _ _ rest.property
  · exact Prod.Lex.left _ _ (after.property.trans rest.property)
  · exact Prod.Lex.left _ _ rest.property
  · exact Prod.Lex.left _ _ (after.property.trans rest.property)
  · exact Prod.Lex.left _ _ rest.property
  · exact Prod.Lex.left _ _ (after.property.trans rest.property)
  · exact Prod.Lex.left _ _ rest.property
  · exact Prod.Lex.left _ _ (other.property.trans (colon.property.trans rest.property))
  · exact Prod.Lex.left _ _
      (after.property.trans (other.property.trans (colon.property.trans rest.property)))

def readArguments (cs : List Char) : Option (List Surface × List Char) :=
  match mark? ")" cs with
  | some (_, after) => some ([], after)
  | none => do
    let (first, rest) ← advancing cs (readAt .conditional cs)
    match mark? ")" rest.val with
    | some (_, after) => some ([first], after)
    | none => do
      let (_, more) ← advancing rest.val (mark? ", " rest.val)
      let (others, after) ← readArguments more.val
      some (first :: others, after)
termination_by (cs.length, 2)
decreasing_by
  · exact Prod.Lex.right _ (by decide)
  · exact Prod.Lex.left _ _ (more.property.trans rest.property)

def readInitializers (cs : List Char) : Option (List (String × Surface) × List Char) := do
  let (member, rest) ← advancing cs (assigned? cs)
  let (value, ending) ← advancing rest.val (readAt .conditional rest.val)
  match advancing ending.val (mark? "," ending.val) with
  | some (_, more) => do
    let (others, after) ← readInitializers more.val
    some ((member, value) :: others, after)
  | none => do
    let (_, after) ← onNewLine? "\x7d" ending.val
    some ([(member, value)], after)
termination_by (cs.length, 2)
decreasing_by
  · exact Prod.Lex.left _ _ rest.property
  · exact Prod.Lex.left _ _ (more.property.trans (ending.property.trans rest.property))

end

/-! ### Steps of the reader -/

variable {decode : List Char → Option Literal} {cs rest after : List Char}

/-- Reading starts with an operand and goes on with links. -/
theorem readAt_of_operand {operand : Surface} (least : Precedence)
    (operandEq : readOperand decode cs = some (operand, rest)) (shorter : rest.length < cs.length) :
    readAt decode least cs = readLinks decode least operand rest := by
  rw [readAt, operandEq, advancing_some operand shorter]
  rfl

/-- Reading stops at a link that binds too loosely. -/
theorem readLinks_of_stop {least : Precedence} (left : Surface)
    (stops : ∀ link after, link? cs = some (link, after) →
      link.precedence.level < least.level) :
    readLinks decode least left cs = some (left, cs) := by
  rw [readLinks]
  cases linkEq : link? cs with
  | none => rfl
  | some found =>
    obtain ⟨link, after⟩ := found
    have stop := stops link after linkEq
    unfold advancing
    by_cases shorter : after.length < cs.length
    · simp [shorter, stop]
    · simp [shorter]

theorem readLinks_access {optional : Bool} {member : String} {least : Precedence} (left : Surface)
    (linkEq : link? cs = some (.access optional member, rest)) (shorter : rest.length < cs.length)
    (binds : least.level ≤ Precedence.primary.level) :
    readLinks decode least left cs =
      readLinks decode least (.access left optional member) rest := by
  rw [readLinks, linkEq, advancing_some _ shorter]
  simp [Link.precedence, Nat.not_lt.2 binds]

/-- Arguments in parentheses invoke what stands before them. -/
theorem readLinks_arguments {least : Precedence} {arguments : List Surface} (left : Surface)
    (linkEq : link? cs = some (.arguments, rest)) (shorter : rest.length < cs.length)
    (binds : least.level ≤ Precedence.primary.level)
    (argumentsEq : readArguments decode rest = some (arguments, after))
    (afterShorter : after.length < rest.length) :
    readLinks decode least left cs = readLinks decode least (.invoke left arguments) after := by
  rw [readLinks, linkEq, advancing_some _ shorter]
  simp [Link.precedence, Nat.not_lt.2 binds, argumentsEq, advancing_some _ afterShorter]

/-- An operator takes what binds more tightly on its right. -/
theorem readLinks_binary {op : BinaryOp} {least : Precedence} {right : Surface} (left : Surface)
    (linkEq : link? cs = some (.binary op, rest)) (shorter : rest.length < cs.length)
    (binds : least.level ≤ (Precedence.ofOp op).level)
    (rightEq : readAt decode (Precedence.ofOp op).tighter rest = some (right, after))
    (afterShorter : after.length < rest.length) :
    readLinks decode least left cs = readLinks decode least (.binary op left right) after := by
  rw [readLinks, linkEq, advancing_some _ shorter]
  simp [Link.precedence, Nat.not_lt.2 binds, rightEq, advancing_some _ afterShorter]

/-- The right operand of a coalescing operator may be another one. -/
theorem readLinks_coalesce {least : Precedence} {right : Surface} (left : Surface)
    (linkEq : link? cs = some (.coalesce, rest)) (shorter : rest.length < cs.length)
    (binds : least.level ≤ Precedence.coalesce.level)
    (rightEq : readAt decode .coalesce rest = some (right, after))
    (afterShorter : after.length < rest.length) :
    readLinks decode least left cs = readLinks decode least (.coalesce left right) after := by
  rw [readLinks, linkEq, advancing_some _ shorter]
  simp [Link.precedence, Nat.not_lt.2 binds, rightEq, advancing_some _ afterShorter]

/-- A conditional takes both of its branches. -/
theorem readLinks_conditional {least : Precedence} {whenTrue whenFalse : Surface}
    {colon other : List Char} (left : Surface)
    (linkEq : link? cs = some (.conditional, rest)) (shorter : rest.length < cs.length)
    (binds : least.level ≤ Precedence.conditional.level)
    (trueEq : readAt decode .coalesce rest = some (whenTrue, colon))
    (colonShorter : colon.length < rest.length)
    (colonEq : mark? " : " colon = some ((), other)) (otherShorter : other.length < colon.length)
    (falseEq : readAt decode .conditional other = some (whenFalse, after))
    (afterShorter : after.length < other.length) :
    readLinks decode least left cs =
      readLinks decode least (.conditional left whenTrue whenFalse) after := by
  rw [readLinks, linkEq, advancing_some _ shorter]
  simp [Link.precedence, Nat.not_lt.2 binds, trueEq, advancing_some _ colonShorter, colonEq,
    advancing_some _ otherShorter, falseEq, advancing_some _ afterShorter]

def Head.atom? : Head → Option Surface
  | literal value => some (.literal value)
  | typedNull type => some (.typedNull type)
  | name spelling => some (.name spelling)
  | _ => none

/-- A head that is an operand by itself is read as such. -/
theorem readOperand_atom {head : Head} {operand : Surface}
    (headEq : head? decode cs = some (head, rest)) (atomEq : head.atom? = some operand)
    (shorter : rest.length < cs.length) : readOperand decode cs = some (operand, rest) := by
  rw [readOperand, headEq, advancing_some _ shorter]
  cases head <;> simp_all [Head.atom?]

theorem readOperand_lambda {parameter : String} {body : Surface}
    (headEq : head? decode cs = some (.lambda parameter, rest)) (shorter : rest.length < cs.length)
    (bodyEq : readAt decode .conditional rest = some (body, after)) :
    readOperand decode cs = some (.lambda parameter body, after) := by
  rw [readOperand, headEq, advancing_some _ shorter]
  simp [bodyEq]

theorem readOperand_raise {exception : Surface}
    (headEq : head? decode cs = some (.raise, rest)) (shorter : rest.length < cs.length)
    (exceptionEq : readAt decode .coalesce rest = some (exception, after)) :
    readOperand decode cs = some (.raise exception, after) := by
  rw [readOperand, headEq, advancing_some _ shorter]
  simp [exceptionEq]

/-- What stands in parentheses is read by itself. -/
theorem readOperand_parenthesis {inner : Surface}
    (headEq : head? decode cs = some (.parenthesis, rest)) (shorter : rest.length < cs.length)
    (innerEq : readAt decode .conditional rest = some (inner, ')' :: after)) :
    readOperand decode cs = some (inner, after) := by
  rw [readOperand, headEq, advancing_some _ shorter]
  simp [innerEq, mark?, without?]

/-- A construction with actual arguments goes on with its block. -/
theorem readOperand_construct {type : String} {arguments : List Surface}
    (headEq : head? decode cs = some (.construct type, '(' :: rest))
    (shorter : ('(' :: rest).length < cs.length)
    (argumentsEq : readArguments decode rest = some (arguments, after))
    (afterShorter : after.length < rest.length) :
    readOperand decode cs = readMembers decode type arguments after := by
  have opens : mark? "(" ('(' :: rest) = some ((), rest) := rfl
  have restShorter : rest.length < ('(' :: rest).length := by simp
  rw [readOperand, headEq, advancing_some _ shorter]
  simp [opens, advancing_some () restShorter, argumentsEq,
    advancing_some _ afterShorter]

theorem readOperand_construct_bare {type : String}
    (headEq : head? decode cs = some (.construct type, rest)) (shorter : rest.length < cs.length)
    (bare : mark? "(" rest = none) :
    readOperand decode cs = readMembers decode type [] rest := by
  rw [readOperand, headEq, advancing_some _ shorter]
  simp [bare]

/-- A construction needs no block. -/
theorem readMembers_none {type : String} {arguments : List Surface}
    (noBlock : onNewLine? "\x7b" cs = none) :
    readMembers decode type arguments cs = some (.construct type arguments [], cs) := by
  rw [readMembers, noBlock]
  rfl

theorem readMembers_block {type : String} {arguments : List Surface}
    {initializers : List (String × Surface)} (opens : onNewLine? "\x7b" cs = some ((), rest))
    (shorter : rest.length < cs.length)
    (initializersEq : readInitializers decode rest = some (initializers, after)) :
    readMembers decode type arguments cs =
      some (.construct type arguments initializers, after) := by
  rw [readMembers, opens, advancing_some _ shorter]
  simp [initializersEq]

theorem readArguments_nil (rest : List Char) :
    readArguments decode (')' :: rest) = some ([], rest) := by
  rw [readArguments]
  rfl

theorem readArguments_last {first : Surface} (unclosed : mark? ")" cs = none)
    (firstEq : readAt decode .conditional cs = some (first, ')' :: rest))
    (shorter : (')' :: rest).length < cs.length) :
    readArguments decode cs = some ([first], rest) := by
  have closes : mark? ")" (')' :: rest) = some ((), rest) := rfl
  rw [readArguments, unclosed]
  simp [firstEq, advancing_some first shorter, closes]

/-- An argument before a separator is followed by others. -/
theorem readArguments_cons {first : Surface} {others : List Surface}
    (unclosed : mark? ")" cs = none)
    (firstEq : readAt decode .conditional cs = some (first, ',' :: ' ' :: rest))
    (shorter : (',' :: ' ' :: rest).length < cs.length)
    (othersEq : readArguments decode rest = some (others, after)) :
    readArguments decode cs = some (first :: others, after) := by
  have goes : mark? ")" (',' :: ' ' :: rest) = none := rfl
  have separates : mark? ", " (',' :: ' ' :: rest) = some ((), rest) := rfl
  have restShorter : rest.length < (',' :: ' ' :: rest).length := by
    simp only [List.length_cons]
    omega
  rw [readArguments, unclosed]
  simp [firstEq, advancing_some first shorter, goes, separates, advancing_some () restShorter,
    othersEq]

theorem readInitializers_last {member : String} {value : Surface} {ending : List Char}
    (assignedEq : assigned? cs = some (member, rest)) (shorter : rest.length < cs.length)
    (valueEq : readAt decode .conditional rest = some (value, ending))
    (endingShorter : ending.length < rest.length) (last : mark? "," ending = none)
    (closes : onNewLine? "\x7d" ending = some ((), after)) :
    readInitializers decode cs = some ([(member, value)], after) := by
  rw [readInitializers, assignedEq, advancing_some _ shorter]
  simp [valueEq, advancing_some _ endingShorter, last, closes]

/-- An assignment before a separator is followed by others. -/
theorem readInitializers_cons {member : String} {value : Surface} {more : List Char}
    {others : List (String × Surface)}
    (assignedEq : assigned? cs = some (member, rest)) (shorter : rest.length < cs.length)
    (valueEq : readAt decode .conditional rest = some (value, ',' :: more))
    (moreShorter : (',' :: more).length < rest.length)
    (othersEq : readInitializers decode more = some (others, after)) :
    readInitializers decode cs = some ((member, value) :: others, after) := by
  have goes : mark? "," (',' :: more) = some ((), more) := rfl
  have restShorter : more.length < (',' :: more).length := by simp
  rw [readInitializers, assignedEq, advancing_some _ shorter]
  simp [valueEq, advancing_some _ moreShorter, goes, advancing_some () restShorter, othersEq]

end

end Source

end MappingForms
