import Preflight.Expr.Parser

/-!
# Documents

A document is a list of statements: assignments `name = expr` and blocks `kind label … { … }`.
`Document.parse?` reads one.

* Each statement ends its line; a comment may follow it.
* A block on one line holds at most one assignment. Otherwise a line break follows the opening brace
  and the closing brace stands on a line of its own.
* No body assigns a name twice.
-/

namespace Preflight

/-- A statement, with the line it starts on. -/
inductive Statement where
  | assignment (name : String) (expression : Expr) (line : Nat)
  | block (kind : String) (labels : List String) (body : List Statement) (line : Nat)

/-- The name that a statement assigns. -/
def Statement.assigned? : Statement → Option String
  | .assignment name .. => some name
  | .block .. => none

namespace Parser

/-- The line of the cursor in a text with a number of line breaks. -/
def line (breaks : Nat) : Parser Nat := do return breaks - (← ahead).count '\n' + 1

/-- The end of a line, with a comment before it, or the end of the text. -/
def endOfLine : Parser Unit := do
  blanks false
  discard <| advance (lineCommentLength (← ahead))
  if (← ahead).isEmpty then return else lineBreak

/-- The labels of a block up to its opening brace. -/
def labels : Nat → Parser (List String)
  | 0 => failure
  | fuel + 1 => do
    blanks false
    match ← ahead with
    | '\x7b' :: _ => return []
    | '"' :: _ => match ← quoted fuel with
      | .string label => return label :: (← labels fuel)
      | _ => failure
    | _ => do
      let label ← name
      return label :: (← labels fuel)

/-- What follows the equals sign of an assignment. -/
def assigned (fuel : Nat) : Parser Expr := do
  expect "="
  blanks false
  expr false fuel

mutual
/-- One statement without the end of its line. -/
def statement (breaks : Nat) : Nat → Parser Statement
  | 0 => failure
  | fuel + 1 => do
    let line ← line breaks
    let keyword ← name
    blanks false
    if (← ahead).head? = some '=' then return .assignment keyword (← assigned fuel) line
    else do
      let labels ← labels fuel
      expect "\x7b"
      return .block keyword labels (← body breaks fuel) line

/-- The body of a block, from behind its opening brace through the closing one. -/
def body (breaks : Nat) : Nat → Parser (List Statement)
  | 0 => failure
  | fuel + 1 => do
    blanks false
    match ← ahead with
    | '\x7d' :: _ => do
      expect "\x7d"
      return []
    | c :: _ =>
      if isNameStart c then do
        let line ← line breaks
        let key ← name
        blanks false
        let value ← assigned fuel
        blanks false
        expect "\x7d"
        return [.assignment key value line]
      else do
        endOfLine
        let statements ← statements breaks fuel []
        expect "\x7d"
        return statements
    | [] => failure

/-- The statements up to a closing brace or the end of the text. -/
def statements (breaks : Nat) : Nat → List String → Parser (List Statement)
  | 0, _ => failure
  | fuel + 1, names => do
    blanks true
    match (← ahead).head? with
    | none => return []
    | some '\x7d' => return []
    | some _ => do
      let s ← statement breaks fuel
      endOfLine
      match s.assigned? with
      | some name =>
        if names.contains name then failure
        else return s :: (← statements breaks fuel (name :: names))
      | none => return s :: (← statements breaks fuel names)
end

end Parser

/-- Reads a document. -/
def Document.parse? (text : String) : Option (List Statement) :=
  let cs := text.toList
  let fuel := Parser.depth cs.length
  Parser.within? cs (Parser.statements (cs.count '\n') fuel [])

end Preflight
