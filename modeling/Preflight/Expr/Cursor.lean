import Preflight.Number.Basic

/-!
# Reading configuration text

A cursor stands in a text and remembers what has been read: as it will be written in reports, and
as tokens, among which blanks do not count. A parser moves the cursor or fails.

* Blanks are spaces, tabs and closed block comments; where an expression may run over several lines
  they are also line breaks and comments up to the end of a line. A comment is none if a `\r` stands
  in it that does not end its line.
* Names are ASCII letters, digits, `_` and `-`, and start with a letter or `_`.
* A number literal has digits on both sides of its point; without point and exponent it must fit an
  unsigned 64-bit word.
-/

namespace Preflight

/-- A place in a text, with what has been read, the last character and token first. -/
structure Cursor where
  rest : List Char
  written : List Char
  tokens : List String

/-- A cursor at the start of a text. -/
def Cursor.start (cs : List Char) : Cursor := ⟨cs, [], []⟩

/-- Reads from a cursor or fails. -/
abbrev Parser := StateT Cursor Option

/-- What a parser has read: its result, the text as it will be written, and the tokens. -/
structure Reading (α : Type) where
  value : α
  text : List Char
  tokens : List String

/-- Whether a name can start with a character. -/
def isNameStart (c : Char) : Bool := c.isAlpha || c = '_'

/-- Whether a name can go on with a character. -/
def isNamePart (c : Char) : Bool := c.isAlphanum || c = '_' || c = '-'

/-- The length of a block comment from behind its opening mark, if it is closed. -/
def blockCommentLength? : List Char → Option Nat
  | [] => none
  | c :: cs =>
    if c = '*' ∧ cs.head? = some '/' then some 2 else (blockCommentLength? cs).map (· + 1)

/-- The length of a text up to the end of its line; none if a `\r` stands before that. -/
def lineLength? : List Char → Option Nat
  | [] => some 0
  | '\n' :: _ => some 0
  | '\r' :: cs => if cs.head? = some '\n' then some 0 else none
  | _ :: cs => (lineLength? cs).map (· + 1)

/-- The length of the comment up to the end of its line that starts a text, zero if none does. -/
def lineCommentLength : List Char → Nat
  | '#' :: cs => match lineLength? cs with
    | some n => n + 1
    | none => 0
  | '/' :: '/' :: cs => match lineLength? cs with
    | some n => n + 2
    | none => 0
  | _ => 0

/-- The length of the blank that starts a text, zero if none does. -/
def blankStart (multiline : Bool) : List Char → Nat
  | '/' :: '*' :: cs => match blockCommentLength? cs with
    | some n => n + 2
    | none => 0
  | c :: cs =>
    if c = ' ' ∨ c = '\t' ∨ (multiline ∧ (c = '\n' ∨ c = '\r')) then 1
    else if multiline then lineCommentLength (c :: cs)
    else 0
  | [] => 0

/-- The length of all blanks at the start of a text, of which some characters are known. -/
def blankLength (multiline : Bool) : Nat → List Char → Nat
  | _, [] => 0
  | known + 1, _ :: cs => blankLength multiline known cs + 1
  | 0, c :: cs => match blankStart multiline (c :: cs) with
    | 0 => 0
    | n + 1 => blankLength multiline n cs + 1

namespace Parser

/-- The text ahead. -/
def ahead : Parser (List Char) := do return (← get).rest

/-- Reads a number of characters, or all if there are fewer. -/
def advance (n : Nat) : Parser (List Char) := do
  let cs ← ahead
  modify fun c => { c with rest := cs.drop n, written := (cs.take n).reverse ++ c.written }
  return cs.take n

/-- Adds to what was read. -/
def emit (text : List Char) (tokens : List String) : Parser Unit :=
  modify fun c => { c with
    written := text.reverse ++ c.written
    tokens := tokens.reverse ++ c.tokens }

/-- What a parser reads, without adding it to what was read before. -/
def capture {α : Type} (p : Parser α) : Parser (Reading α) := do
  let before ← get
  set (Cursor.start before.rest)
  let a ← p
  let after ← get
  set { before with rest := after.rest }
  return ⟨a, after.written.reverse, after.tokens.reverse⟩

/-- The result of a parser on a text of its own, which it has to read to the end; none if it does
not. -/
def within? {α : Type} (cs : List Char) (p : Parser α) : Option α :=
  match p.run (Cursor.start cs) with
  | some (a, c) => if c.rest = [] then some a else none
  | none => none

/-- Reads a given text. -/
def expect (s : String) : Parser Unit := do
  if s.toList.isPrefixOf (← ahead) then do
    discard <| advance s.length
    emit [] [s]
  else failure

/-- Reads a given text if it is ahead. -/
def accept (s : String) : Parser Bool := do
  if s.toList.isPrefixOf (← ahead) then do
    expect s
    return true
  else return false

/-- Reads as long as characters satisfy a test. -/
def takeWhile (p : Char → Bool) : Parser (List Char) := do
  advance ((← ahead).takeWhile p).length

/-- Skips blanks, over several lines or not. -/
def blanks (multiline : Bool) : Parser Unit := do
  discard <| advance (blankLength multiline 0 (← ahead))

/-- Reads a line break, which is written as it is. -/
def lineBreak : Parser Unit := do
  discard <| accept "\r"
  expect "\n"

/-- Reads the end of a line, with a comment before it. The line break is written as a line feed. -/
def lineEnd : Parser Unit := do
  discard <| advance (lineCommentLength (← ahead))
  discard <| capture lineBreak
  emit ['\n'] []

/-- Reads a name. -/
def name : Parser String := do
  match (← ahead).head? with
  | some c =>
    if isNameStart c then do
      let name := String.ofList (← takeWhile isNamePart)
      emit [] [name]
      return name
    else failure
  | none => failure

/-- The length of an exponent at the start of a text, zero if there is none. -/
def exponentLength : List Char → Nat
  | c :: cs =>
    if c = 'e' ∨ c = 'E' then
      let sign := if cs.head? = some '+' ∨ cs.head? = some '-' then 1 else 0
      match ((cs.drop sign).takeWhile Char.isDigit).length with
      | 0 => 0
      | n => n + sign + 1
    else 0
  | [] => 0

/-- The length of a fraction at the start of a text, zero if there is none. -/
def fractionLength : List Char → Nat
  | '.' :: cs => match (cs.takeWhile Char.isDigit).length with
    | 0 => 0
    | n => n + 1
  | _ => 0

/-- Reads digits as a number that fits an unsigned 64-bit word. -/
def natural : Parser Nat := do
  let digits ← takeWhile Char.isDigit
  let n := Decimal.ofDigits digits
  if digits ≠ [] ∧ n < Nat.pow 2 64 then return n else failure

/-- Reads a position in a list: no digit follows a zero at the start. -/
def position : Parser Nat := do
  let n ← if (← ahead).head? = some '0' then (fun _ => 0) <$> advance 1 else natural
  emit [] [toString n]
  return n

/-- Reads a number literal without sign. -/
def number : Parser Number := do
  let cs ← ahead
  let whole := (cs.takeWhile Char.isDigit).length
  let fraction := fractionLength (cs.drop whole)
  let exponent := exponentLength (cs.drop (whole + fraction))
  let number? ← if fraction + exponent = 0 then (some ∘ Number.int ∘ Int.ofNat) <$> natural
    else (fun cs => (Decimal.parse cs).bind Number.ofDecimal?) <$>
      advance (whole + fraction + exponent)
  match number? with
  | some n => do
    emit [] [n.text]
    return n
  | none => failure

end Parser
end Preflight
