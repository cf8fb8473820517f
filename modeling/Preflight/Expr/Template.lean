import Preflight.Expr.Printer
import Preflight.Expr.Cursor
import Preflight.Text.Lines

/-!
# Templates

A template is literal text with interpolations `${…}` and directives `%{…}` in it. It is read as a
row of fragments, which are then trimmed and nested.

* `literalRun` reads literal text up to the next mark; between quotes there are escapes.
* `indentation` and `unindent` take the common indentation off an indented heredoc.
* `writeFragments` writes a template in quotes that stands inside a mark.
* `strip` trims the literals next to a `~`: blanks, and up to one line break behind them.
* `assemble?` nests the fragments between the marks of each branch and loop.
-/

namespace Preflight

/-- What a mark in a template says. -/
inductive Mark where
  | interpolation (expr : Expr)
  | branch (cond : Expr)
  | otherwise
  | endBranch
  | loop (key? : Option String) (value : String) (collection : Expr)
  | endLoop

/-- A piece of a template: literal text, or a mark with its text. `quotes` tells whether a template
in quotes stands inside the mark. -/
inductive Fragment where
  | literal (text : List Char)
  | mark (mark : Mark) (stripBefore stripAfter : Bool) (written : List Char) (quotes : Bool)

/-- The number of directives that are open behind a mark. -/
def Mark.depthAfter (depth : Nat) : Mark → Nat
  | .branch _ | .loop .. => depth + 1
  | .endBranch | .endLoop => depth - 1
  | .interpolation _ | .otherwise => depth

/-! ### Literal text -/

/-- What literal text stands in: a text of its own, quotes, or a heredoc. -/
inductive Enclosure where
  | none
  | quotes
  | heredoc (delimiter : String)

/-- The value of a hexadecimal digit. -/
def hexDigit? (c : Char) : Option Nat :=
  if c.isDigit then some (c.toNat - 48)
  else if 'a' ≤ c ∧ c ≤ 'f' then some (c.toNat - 87)
  else if 'A' ≤ c ∧ c ≤ 'F' then some (c.toNat - 55)
  else none

/-- The character with a code point given in hexadecimal digits. -/
def charOfHex? (width : Nat) (cs : List Char) : Option Char := do
  let digits ← (cs.take width).mapM hexDigit?
  let n := digits.foldl (fun n d => 16 * n + d) 0
  if digits.length = width ∧ n.isValidChar then some (Char.ofNat n) else none

/-- The character that an escape stands for, and the length of the escape behind the backslash. -/
def escaped? : List Char → Option (Char × Nat)
  | 'n' :: _ => some ('\n', 1)
  | 'r' :: _ => some ('\r', 1)
  | 't' :: _ => some ('\t', 1)
  | 'b' :: _ => some ('\x08', 1)
  | 'f' :: _ => some ('\x0c', 1)
  | '\\' :: _ => some ('\\', 1)
  | '"' :: _ => some ('"', 1)
  | '/' :: _ => some ('/', 1)
  | 'u' :: cs => (charOfHex? 4 cs).map fun c => (c, 5)
  | 'U' :: cs => (charOfHex? 8 cs).map fun c => (c, 9)
  | _ => none

/-- Whether a text starts with the end of a line and the next line with a heredoc's delimiter. -/
def endsHeredoc (delimiter : String) : List Char → Bool
  | '\n' :: cs => delimiter.toList.isPrefixOf (cs.dropWhile fun c => c = ' ' ∨ c = '\t')
  | '\r' :: '\n' :: cs => delimiter.toList.isPrefixOf (cs.dropWhile fun c => c = ' ' ∨ c = '\t')
  | _ => false

/-- The literal text at the start of a template and its length in the source; none where the literal
ends. A doubled mark stands for its characters. -/
def literalUnit? (enclosure : Enclosure) : List Char → Option (List Char × Nat)
  | [] => none
  | c :: cs =>
    if startsMark (c :: cs) then none
    else if cs.head? = some c ∧ startsMark cs then some ([c, '\x7b'], 3)
    else match enclosure with
      | .none => some ([c], 1)
      | .quotes =>
        if c = '"' then none
        else if c = '\\' then (escaped? cs).map fun (d, n) => ([d], n + 1)
        else some ([c], 1)
      | .heredoc delimiter => if endsHeredoc delimiter (c :: cs) then none else some ([c], 1)

/-- The literal text up to where it ends, and what follows it. The first characters may be known to
be read. -/
def literalRun (enclosure : Enclosure) : Nat → List Char → List Char × List Char
  | _, [] => ([], [])
  | known + 1, _ :: cs => literalRun enclosure known cs
  | 0, c :: cs => match literalUnit? enclosure (c :: cs) with
    | none => ([], c :: cs)
    | some (text, n) =>
      let (more, rest) := literalRun enclosure (n - 1) cs
      (text ++ more, rest)

/-! ### Writing -/

/-- How a template shows its fragments: literals as they are but for doubled marks. -/
def Fragment.text : Fragment → List Char
  | .literal text => doubleMarks text
  | .mark _ _ _ written _ => written

/-- How the fragments of a template in quotes are written inside a mark: literals with escapes up to
a mark with another template in quotes, and as they are behind it. -/
def writeFragments : List Fragment → List Char
  | [] => []
  | .literal text :: fs => Text.escapeControls (doubleMarks text) ++ writeFragments fs
  | .mark _ _ _ written quotes :: fs =>
    written ++ if quotes then fs.flatMap Fragment.text else writeFragments fs

/-! ### Indentation -/

/-- The indentations of the literals outside all directives. The rest of a line behind a mark does
not count. -/
def indentations (afterMark : Bool) (depth : Nat) : List Fragment → List Nat
  | [] => []
  | .literal text :: fs =>
    let lines := (Text.lines text).drop (if afterMark then 1 else 0)
    let here := if depth = 0 then Text.sharedIndentation? lines else none
    here.toList ++ indentations false depth fs
  | .mark m _ _ _ _ :: fs => indentations true (m.depthAfter depth) fs

/-- Whether a line starts with a mark outside all directives; `margin` tells whether a line starts
here. -/
def marksMargin (margin : Bool) (depth : Nat) : List Fragment → Bool
  | [] => false
  | .literal text :: fs => marksMargin (text.getLast? = some '\n') depth fs
  | .mark m _ _ _ _ :: fs => (margin && depth = 0) || marksMargin false (m.depthAfter depth) fs

/-- The least indentation of a template's literals, zero if nothing can be taken off. -/
def indentation (fs : List Fragment) : Nat :=
  if marksMargin true 0 fs then 0 else (indentations false 0 fs).min?.getD 0

/-- Takes an indentation off the lines of the literals outside all directives. The rest of a line
behind a mark stays as it is. -/
def unindent (size : Nat) (afterMark : Bool) (depth : Nat) : List Fragment → List Fragment
  | [] => []
  | .literal text :: fs =>
    let text := if depth = 0 then
        let lines := Text.lines text
        let kept := if afterMark then 1 else 0
        Text.joinLines (lines.take kept ++ Text.unindent size (lines.drop kept))
      else text
    .literal text :: unindent size false depth fs
  | .mark m before after written quotes :: fs =>
    .mark m before after written quotes :: unindent size true (m.depthAfter depth) fs

/-! ### Trimming -/

/-- A blank that is no line break. -/
def isInlineBlank (c : Char) : Bool := Text.isBlank c && c ≠ '\n' && c ≠ '\r'

/-- Drops blanks at the start and one line break behind them. -/
def stripStart (cs : List Char) : List Char :=
  match cs.dropWhile isInlineBlank with
  | '\r' :: '\n' :: cs => cs
  | '\n' :: cs => cs
  | cs => cs

/-- Drops blanks at the end and one line break before them. -/
def stripEnd (cs : List Char) : List Char :=
  match cs.reverse.dropWhile isInlineBlank with
  | '\n' :: '\r' :: cs => cs.reverse
  | '\n' :: cs => cs.reverse
  | cs => cs.reverse

/-- Whether the fragment ahead trims the text before it. -/
def stripsBefore : List Fragment → Bool
  | .mark _ before _ _ _ :: _ => before
  | _ => false

/-- Trims the literals next to marks that ask for it. -/
def strip (after : Bool) : List Fragment → List Fragment
  | [] => []
  | .literal text :: fs =>
    let text := if after then stripStart text else text
    let text := if stripsBefore fs then stripEnd text else text
    .literal text :: strip false fs
  | .mark m before next written quotes :: fs => .mark m before next written quotes :: strip next fs

/-! ### Nesting -/

/-- A directive that is not closed yet, with what it needs when it is. -/
inductive OpenDirective where
  | branch (cond : Expr)
  | otherwise (cond : Expr) (yes : List Part)
  | loop (key? : Option String) (value : String) (collection : Expr)

/-- Nests fragments. `outer` holds the open directives, each with the parts before it; parts stand
last first. -/
def assembleInto (outer : List (OpenDirective × List Part)) (parts : List Part) :
    List Fragment → Option (List Part)
  | [] => if outer.isEmpty then some parts.reverse else none
  | .literal text :: fs => assembleInto outer (.literal (String.ofList text) :: parts) fs
  | .mark m _ _ _ _ :: fs =>
    match m, outer with
    | .interpolation e, _ => assembleInto outer (.interpolation e :: parts) fs
    | .branch cond, _ => assembleInto ((.branch cond, parts) :: outer) [] fs
    | .loop key? value collection, _ =>
      assembleInto ((.loop key? value collection, parts) :: outer) [] fs
    | .otherwise, (.branch cond, before) :: rest =>
      assembleInto ((.otherwise cond parts.reverse, before) :: rest) [] fs
    | .endBranch, (.branch cond, before) :: rest =>
      assembleInto rest (.branch cond parts.reverse none :: before) fs
    | .endBranch, (.otherwise cond yes, before) :: rest =>
      assembleInto rest (.branch cond yes (some parts.reverse) :: before) fs
    | .endLoop, (.loop key? value collection, before) :: rest =>
      assembleInto rest (.loop key? value collection parts.reverse :: before) fs
    | _, _ => none

/-- The parts of a template from its fragments; none if directives do not match. -/
def assemble? (fs : List Fragment) : Option (List Part) := assembleInto [] [] (strip false fs)

end Preflight
