import Preflight.Datum
import Preflight.Expr.Basic
import Preflight.Text.Escape

/-!
# Writing expressions

The text of an expression in reports (`Expr.text`).

* Lists and objects have an item on each line, indented by two spaces; inside the arguments of a
  call and inside a conditional they stand on one line.
* No comma precedes an item while the list or object that was opened last is still empty: it is
  left out before the first item, and before the next item after an empty list or object.
* In a string literal the marks `${` and `%{` are written with the first character doubled.
* A template shows its text as it is.
* `Datum.text` writes plain data as the expression that gives it.
-/

namespace Preflight

/-- Doubles the first character of every mark in a text from its first mark on. A `$` or `%` before
another character hides that character from being the start of a mark. -/
def doubleMarksFrom : List Char → List Char
  | c :: d :: cs =>
    if c = '$' ∨ c = '%' then
      if d = '\x7b' then c :: c :: d :: doubleMarksFrom cs else c :: d :: doubleMarksFrom cs
    else c :: doubleMarksFrom (d :: cs)
  | cs => cs

/-- Whether a text starts with a mark: `${` or `%{`. -/
def startsMark : List Char → Bool
  | c :: '\x7b' :: _ => c = '$' ∨ c = '%'
  | _ => false

/-- Doubles the first character of the marks that would open an interpolation or a directive. -/
def doubleMarks : List Char → List Char
  | [] => []
  | c :: cs => if startsMark (c :: cs) then doubleMarksFrom (c :: cs) else c :: doubleMarks cs

/-- A text as a string literal. -/
def quoteLiteral (s : String) : String :=
  String.ofList ('"' :: doubleMarks (Text.escape s.toList) ++ ['"'])

/-- Spaces. -/
def spaces (n : Nat) : String := String.ofList (List.replicate n ' ')

/-- The text of a template that stands at an indentation. The text of a heredoc ends its line. -/
def TemplateForm.render (indent : Nat) : TemplateForm → String
  | .quoted text => "\"" ++ text ++ "\""
  | .heredoc delimiter indented text =>
    let text := if text.endsWith "\n" then text else text ++ "\n"
    if indented then "<<-" ++ delimiter ++ "\n" ++ text ++ spaces indent ++ delimiter
    else "<<" ++ delimiter ++ "\n" ++ text ++ delimiter

/-- A new line at an indentation, or nothing in a text on one line. -/
def newLine (compact : Bool) (indent : Nat) : String :=
  if compact then "" else "\n" ++ spaces indent

/-- The indentation of what stands inside brackets. -/
def innerIndent (compact : Bool) (indent : Nat) : Nat := if compact then indent else indent + 2

/-- Writes texts. The state tells whether the list or object that was opened last is still empty. -/
abbrev Rendering := StateM Bool

/-- Begins an item, with what stands before it: one text if the list or object that was opened last
is still empty, another if not. -/
def beginItem (first next : String) : Rendering String := do
  let empty ← get
  set false
  return if empty then first else next

mutual
/-- Writes an expression, on one line or not, at an indentation. -/
def Expr.render (compact : Bool) (indent : Nat) : Expr → Rendering String
  | .null => return "null"
  | .bool b => return if b then "true" else "false"
  | .number n => return n.text
  | .string s => return quoteLiteral s
  | .array items => do
    set true
    let text ← renderItems compact (innerIndent compact indent) items
    return "[" ++ text ++ (if items.isEmpty then "" else newLine compact indent) ++ "]"
  | .object items => do
    set true
    let text ← renderEntries compact (innerIndent compact indent) items
    let close := if compact then " " else newLine compact indent
    return "\x7b" ++ text ++ (if items.isEmpty then "" else close) ++ "\x7d"
  | .template form _ => return form.render indent
  | .variable name => return name
  | .traversal root path =>
    return (← root.render compact indent) ++ (← renderPath compact indent path)
  | .call function args expandFinal =>
    return function ++ "(" ++ (← renderArgs indent args) ++ (if expandFinal then "..." else "") ++
      ")"
  | .paren inner => return "(" ++ (← inner.render compact indent) ++ ")"
  | .conditional cond yes no =>
    return (← cond.render true indent) ++ " ? " ++ (← yes.render true indent) ++ " : " ++
      (← no.render true indent)
  | .unary op operand => return op.text ++ (← operand.render compact indent)
  | .binary op lhs rhs =>
    return (← lhs.render compact indent) ++ " " ++ op.text ++ " " ++ (← rhs.render compact indent)
  | .forList key? value collection body cond? =>
    return "[for " ++ ", ".intercalate (boundNames key? value) ++ " in " ++
      (← collection.render compact indent) ++ " : " ++ (← body.render compact indent) ++
      (← renderCond compact indent cond?) ++ "]"
  | .forObject key? value collection key body grouping cond? =>
    return "\x7bfor " ++ ", ".intercalate (boundNames key? value) ++ " in " ++
      (← collection.render compact indent) ++ " : " ++ (← key.render compact indent) ++ " => " ++
      (← body.render compact indent) ++ (if grouping then "..." else "") ++
      (← renderCond compact indent cond?) ++ "\x7d"
termination_by structural e => e

/-- Writes the items of a list. -/
def renderItems (compact : Bool) (indent : Nat) : List Expr → Rendering String
  | [] => return ""
  | e :: es => do
    let line := newLine compact indent
    let lead ← beginItem line (if compact then ", " else "," ++ line)
    return lead ++ (← e.render compact indent) ++ (← renderItems compact indent es)
termination_by structural es => es

/-- Writes the entries of an object. -/
def renderEntries (compact : Bool) (indent : Nat) : List (Key × Expr) → Rendering String
  | [] => return ""
  | (k, e) :: es => do
    let line := newLine compact indent
    let lead ← beginItem (if compact then " " else line) (if compact then ", " else line)
    return lead ++ (← k.render compact indent) ++ " = " ++ (← e.render compact indent) ++
      (← renderEntries compact indent es)
termination_by structural es => es

/-- Writes the arguments of a call, on one line. -/
def renderArgs (indent : Nat) : List Expr → Rendering String
  | [] => return ""
  | [e] => e.render true indent
  | e :: es => return (← e.render true indent) ++ ", " ++ (← renderArgs indent es)
termination_by structural es => es

/-- Writes an object key. -/
def Key.render (compact : Bool) (indent : Nat) : Key → Rendering String
  | .name name => return name
  | .expr e => e.render compact indent
termination_by structural k => k

/-- Writes an access. -/
def Access.render (compact : Bool) (indent : Nat) : Access → Rendering String
  | .field name => return "." ++ name
  | .index e => return "[" ++ (← e.render compact indent) ++ "]"
  | .position n => return "." ++ toString n
  | .eachField names => return ".*" ++ String.join (names.map fun name => "." ++ name)
  | .each => return "[*]"
termination_by structural a => a

/-- Writes the accesses of a traversal, one behind another. -/
def renderPath (compact : Bool) (indent : Nat) : List Access → Rendering String
  | [] => return ""
  | a :: as => return (← a.render compact indent) ++ (← renderPath compact indent as)
termination_by structural as => as

/-- Writes the condition of a `for`. -/
def renderCond (compact : Bool) (indent : Nat) : Option Expr → Rendering String
  | none => return ""
  | some e => return " if " ++ (← e.render compact indent)
termination_by structural e? => e?
end

/-- The text of an expression. -/
def Expr.text (e : Expr) : String := ((e.render false 0).run false).1

/-- Whether a text holds a mark that is not doubled, with something behind it. -/
def holdsMark : List Char → Bool
  | c :: d :: e :: cs =>
    if d = '\x7b' ∧ (c = '$' ∨ c = '%') then true
    else if c = d ∧ startsMark (d :: e :: cs) then holdsMark (e :: cs)
    else holdsMark (d :: e :: cs)
  | _ => false

mutual
/-- Plain data as the expression that gives it. A text that holds a mark stands as it is. -/
def Expr.ofDatum : Datum → Expr
  | .null => .null
  | .bool b => .bool b
  | .number n => .number n
  | .string s => if holdsMark s.toList then .template (.quoted s) none else .string s
  | .list items => .array (ofData items)
  | .object entries => .object (ofDataEntries entries)

/-- Each item as an expression. -/
def ofData : List Datum → List Expr
  | [] => []
  | d :: ds => Expr.ofDatum d :: ofData ds

/-- Each entry as an entry with a literal key. -/
def ofDataEntries : List (String × Datum) → List (Key × Expr)
  | [] => []
  | (k, d) :: es => (.expr (.string k), Expr.ofDatum d) :: ofDataEntries es
end

/-- The text of plain data in messages. -/
def Datum.text (d : Datum) : String := (Expr.ofDatum d).text

end Preflight
