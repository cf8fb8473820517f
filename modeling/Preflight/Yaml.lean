import Preflight.Datum
import Preflight.Text.Escape

/-!
# Writing YAML

Plain data in block style, two spaces a level; lists stand under their key without further
indentation.

* A string is written plain if nothing in it could be taken for YAML syntax and it does not read as
  another type; in single quotes if it can; in double quotes if it holds characters that must be
  escaped; as a literal block if it has several lines.
* Spaces stand between a break inside a scalar and the next character.
* A key of several lines, or of more than 128 bytes, is written after a question mark, and its value
  behind a colon of its own.
-/

namespace Preflight.Yaml

/-- Words for truth values. -/
def truthWords : List String := ["true", "True", "TRUE", "false", "False", "FALSE"]

/-- Words for null and for the numbers that are not finite. -/
def specialWords : List String :=
  ["", "null", "Null", "NULL", "~", ".inf", ".Inf", ".INF", "+.inf", "+.Inf", "+.INF",
    "-.inf", "-.Inf", "-.INF", ".nan", ".NaN", ".NAN"]

/-- Drops a sign. -/
def stripSign : List Char → List Char
  | '-' :: cs => cs
  | '+' :: cs => cs
  | cs => cs

/-- The value of a digit in a base up to sixteen. -/
def digitIn? (base : Nat) (c : Char) : Option Nat :=
  let v := if c.isDigit then c.toNat - 48
    else if 'a' ≤ c ∧ c ≤ 'f' then c.toNat - 87
    else if 'A' ≤ c ∧ c ≤ 'F' then c.toNat - 55
    else 16
  if v < base then some v else none

/-- Whether digits make a number of at most 128 bits in a base. -/
def fitsBase (base : Nat) (limit : Nat) (cs : List Char) : Bool :=
  cs ≠ [] &&
    match cs.mapM (digitIn? base) with
    | some ds => ds.foldl (fun n d => base * n + d) 0 < limit
    | none => false

/-- An integer with a base mark, such as `0x1f`, `0o17` or `-0b11`. -/
def isMarkedInteger (cs : List Char) : Bool :=
  let limit := if cs.head? = some '-' then Nat.pow 2 127 + 1 else Nat.pow 2 128
  match stripSign cs with
  | '0' :: 'x' :: ds => fitsBase 16 limit ds
  | '0' :: 'o' :: ds => fitsBase 8 limit ds
  | '0' :: 'b' :: ds => fitsBase 2 limit ds
  | _ => false

/-- A decimal number that is not too large. -/
def isDecimal (cs : List Char) : Bool :=
  let body := match cs with
    | '+' :: '+' :: _ => none
    | '+' :: '-' :: _ => none
    | cs => Decimal.parse cs
  match body with
  | some d => d.toBinary64?.isSome
  | none => false

/-- Digits after a needless zero. -/
def isPaddedDigits (cs : List Char) : Bool :=
  match stripSign cs with
  | '0' :: c :: ds => (c :: ds).all Char.isDigit
  | _ => false

/-- Whether a string written plain would be read as something else than a string. -/
def readsAsOther (s : String) : Bool :=
  let cs := s.toList
  truthWords.contains s || specialWords.contains s || isMarkedInteger cs || isDecimal cs ||
    isPaddedDigits cs

/-- The line breaks of YAML. -/
def isBreak (c : Char) : Bool :=
  c = '\n' ∨ c = '\r' ∨ c = '\u0085' ∨ c = '\u2028' ∨ c = '\u2029'

/-- A blank, a break or the end of the text. -/
def isBlankOrEnd : Option Char → Bool
  | none => true
  | some c => c = ' ' ∨ c = '\t' ∨ isBreak c

/-- Characters that may stand in a scalar without an escape. -/
def isPrintable (c : Char) : Bool :=
  c = '\n' ∨ (' ' ≤ c ∧ c ≤ '~') ∨ ('\u00a0' ≤ c ∧ c.toNat < 0xD800) ∨
    (0xE000 ≤ c.toNat ∧ c.toNat < 0xFFFE ∧ c.toNat ≠ 0xFEFF) ∨ 0x10000 ≤ c.toNat

/-- What a string's characters say about the styles it can be written in. -/
structure Shape where
  /-- Something could be taken for syntax. -/
  indicators : Bool
  /-- There are line breaks. -/
  multiline : Bool
  /-- Some character has to be escaped. -/
  special : Bool
  /-- The first character is a space or a break, or the last one is. -/
  ragged : Bool
  /-- The last character is a space. -/
  trailingSpace : Bool
  /-- A space follows a break. -/
  breakSpace : Bool
  /-- A break follows a space. -/
  spaceBreak : Bool

/-- Whether a character is an indicator where it stands. -/
def isIndicator (before : Option Char) (c : Char) (after : Option Char) : Bool :=
  match before with
  | none =>
    "#,[]\x7b\x7d&*!|>'\"%@\x60".toList.contains c ||
      ((c = '?' ∨ c = ':' ∨ c = '-') && isBlankOrEnd after)
  | some _ => (c = ':' && isBlankOrEnd after) || (c = '#' && isBlankOrEnd before)

/-- Whether some place of a text, seen with its neighbours, satisfies a test. -/
def anyPlace (test : Option Char → Char → Option Char → Bool) : Option Char → List Char → Bool
  | _, [] => false
  | before, c :: cs => test before c cs.head? || anyPlace test (some c) cs

/-- What the characters of a string say. -/
def shape (s : String) : Shape :=
  let cs := s.toList
  let edge (c : Option Char) : Bool := c.any fun c => c = ' ' ∨ isBreak c
  { indicators := "---".isPrefixOf s || "...".isPrefixOf s || anyPlace isIndicator none cs
    multiline := cs.any isBreak
    special := cs.any fun c => !isPrintable c
    ragged := edge cs.head? || edge cs.getLast?
    trailingSpace := cs.getLast? = some ' '
    breakSpace := anyPlace (fun b c _ => c = ' ' && b.any isBreak) none cs
    spaceBreak := anyPlace (fun b c _ => isBreak c && b = some ' ') none cs }

/-- The last hexadecimal digits of a number. -/
def hexDigits : Nat → Nat → List Char
  | 0, _ => []
  | width + 1, n => hexDigits width (n / 16) ++ [Text.upperHexDigit (n % 16)]

/-- The escaped form of a character in double quotes. -/
def escapeChar (c : Char) : List Char :=
  match c with
  | '"' => ['\\', '"']
  | '\\' => ['\\', '\\']
  | '\x00' => ['\\', '0']
  | '\x07' => ['\\', 'a']
  | '\x08' => ['\\', 'b']
  | '\t' => ['\\', 't']
  | '\n' => ['\\', 'n']
  | '\x0b' => ['\\', 'v']
  | '\x0c' => ['\\', 'f']
  | '\r' => ['\\', 'r']
  | '\x1b' => ['\\', 'e']
  | '\u0085' => ['\\', 'N']
  | '\u2028' => ['\\', 'L']
  | '\u2029' => ['\\', 'P']
  | c =>
    if isPrintable c then [c]
    else if c.toNat ≤ 0xFF then ['\\', 'x'] ++ hexDigits 2 c.toNat
    else if c.toNat ≤ 0xFFFF then ['\\', 'u'] ++ hexDigits 4 c.toNat
    else ['\\', 'U'] ++ hexDigits 8 c.toNat

/-- A string in double quotes. -/
def doubleQuoted (s : String) : String :=
  String.ofList ('"' :: s.toList.flatMap escapeChar ++ ['"'])

/-- Spaces. -/
def pad (n : Nat) : String := String.ofList (List.replicate n ' ')

/-- A text with an indentation between each break and the next character that is none; `fresh` tells
whether a break stands before the text. -/
def indentBreaks (indent : Nat) (fresh : Bool) : List Char → List Char
  | [] => []
  | c :: cs =>
    if isBreak c then c :: indentBreaks indent true cs
    else (if fresh then List.replicate indent ' ' else []) ++ c :: indentBreaks indent false cs

/-- A string in single quotes that stands under an indentation. A quote inside is written twice. -/
def singleQuoted (indent : Nat) (s : String) : String :=
  let text := indentBreaks (indent + 2) false
    (s.toList.flatMap fun c => if c = '\'' then [c, c] else [c])
  let close := if s.toList.getLast?.any isBreak then pad (indent + 2) else ""
  "'" ++ String.ofList text ++ close ++ "'"

/-- The marks of a literal block: an indentation hint if the text starts with a blank, and what
becomes of the breaks at its end. -/
def literalMarks (s : String) : String :=
  let hint := if s.toList.head?.any (fun c => c = ' ' ∨ isBreak c) then "2" else ""
  let chomp := match s.toList.reverse.map isBreak with
    | true :: true :: _ => "+"
    | [true] => "+"
    | true :: _ => ""
    | _ => "-"
  hint ++ chomp

/-- A literal block under an indentation. A break at the end of the text ends its last line. -/
def literalBlock (indent : Nat) (s : String) : String :=
  let text := String.ofList (indentBreaks (indent + 2) true s.toList)
  "|" ++ literalMarks s ++ "\n" ++ text ++ if s.toList.getLast?.any isBreak then "" else "\n"

/-- Whether a string is written as a literal block. -/
def isLiteral (s : String) : Bool :=
  let sh := shape s
  s.toList.contains '\n' && !(sh.trailingSpace || sh.spaceBreak || sh.special)

/-- A string without a literal block, under an indentation. -/
def inlineString (indent : Nat) (s : String) : String :=
  let sh := shape s
  if !(sh.multiline || sh.ragged || sh.indicators || sh.special || readsAsOther s) then s
  else if sh.special || sh.breakSpace || sh.spaceBreak || s.toList.contains '\n' then doubleQuoted s
  else singleQuoted indent s

/-- A string under an indentation, with the end of its last line. -/
def stringBlock (indent : Nat) (s : String) : String :=
  if isLiteral s then literalBlock indent s else inlineString indent s ++ "\n"

/-- Whether a key can stand on one line before its colon. -/
def isSimpleKey (key : String) : Bool := !(shape key).multiline && key.utf8ByteSize ≤ 128

mutual
/-- A datum behind the mark of a list's item or of an entry at an indentation, with the end of its
last line. -/
def block (indent : Nat) : Datum → String
  | .null => "null\n"
  | .bool b => if b then "true\n" else "false\n"
  | .number n => n.text ++ "\n"
  | .string s => stringBlock indent s
  | .list [] => "[]\n"
  | .list items => itemBlocks (indent + 2) true items
  | .object [] => "\x7b\x7d\n"
  | .object entries => entryBlocks (indent + 2) true entries

/-- The items of a list at an indentation; `inLine` tells whether the first stands behind
something. -/
def itemBlocks (indent : Nat) (inLine : Bool) : List Datum → String
  | [] => ""
  | d :: ds =>
    (if inLine then "" else pad indent) ++ "- " ++ block indent d ++ itemBlocks indent false ds

/-- The entries of an object at an indentation; `inLine` tells whether the first stands behind
something. A list stands at the indentation of its key if that is a simple one. -/
def entryBlocks (indent : Nat) (inLine : Bool) : List (String × Datum) → String
  | [] => ""
  | (k, d) :: es =>
    let entry :=
      if isSimpleKey k then
        inlineString indent k ++ ":" ++ match d with
          | .list (i :: is) => "\n" ++ itemBlocks indent false (i :: is)
          | .object (e :: fs) => "\n" ++ entryBlocks (indent + 2) false (e :: fs)
          | d => " " ++ block indent d
      else "? " ++ stringBlock indent k ++ pad indent ++ ": " ++ block indent d
    (if inLine then "" else pad indent) ++ entry ++ entryBlocks indent false es
end

/-- Data as one YAML document. -/
def document : Datum → String
  | .list (i :: is) => itemBlocks 0 true (i :: is)
  | .object (e :: es) => entryBlocks 0 true (e :: es)
  | d => block 0 d

end Preflight.Yaml
