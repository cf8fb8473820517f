import Preflight.Number.Basic

/-!
# Expressions

The expressions of the configuration language as they are written. Operations, templates and
traversals keep their parts; blanks and comments are gone.

* A traversal is a root followed by accesses. `.*` keeps the attribute names right behind it, as it
  applies them to each element; all accesses behind `[*]` apply to each element.
* A template keeps its text beside the parts that the text holds; a text that cannot be read has no
  parts.
-/

namespace Preflight

/-- Operators in front of an operand. -/
inductive UnaryOp where
  | neg
  | not
  deriving DecidableEq, Repr

/-- Operators between two operands. -/
inductive BinaryOp where
  | eq
  | notEq
  | lessEq
  | greaterEq
  | less
  | greater
  | add
  | sub
  | mul
  | div
  | rem
  | and
  | or
  deriving DecidableEq, Repr

/-- An operator as it is written. -/
def UnaryOp.text : UnaryOp → String
  | .neg => "-"
  | .not => "!"

/-- An operator as it is written. -/
def BinaryOp.text : BinaryOp → String
  | .eq => "=="
  | .notEq => "!="
  | .lessEq => "<="
  | .greaterEq => ">="
  | .less => "<"
  | .greater => ">"
  | .add => "+"
  | .sub => "-"
  | .mul => "*"
  | .div => "/"
  | .rem => "%"
  | .and => "&&"
  | .or => "||"

/-- How tightly an operator binds. -/
def BinaryOp.precedence : BinaryOp → Nat
  | .mul | .div | .rem => 6
  | .add | .sub => 5
  | .less | .lessEq | .greater | .greaterEq => 4
  | .eq | .notEq => 3
  | .and => 2
  | .or => 1

/-- How a template is written, with the text between its marks. -/
inductive TemplateForm where
  | quoted (text : String)
  /-- The text runs up to a line that holds the delimiter; with `indented` its common indentation
  has been removed. -/
  | heredoc (delimiter : String) (indented : Bool) (text : String)
  deriving DecidableEq, Repr

mutual
/-- Expressions. -/
inductive Expr where
  | null
  | bool (value : Bool)
  | number (value : Number)
  | string (value : String)
  | array (items : List Expr)
  | object (items : List (Key × Expr))
  | template (form : TemplateForm) (parts? : Option (List Part))
  | variable (name : String)
  | traversal (root : Expr) (path : List Access)
  | call (function : String) (args : List Expr) (expandFinal : Bool)
  | paren (inner : Expr)
  | conditional (cond yes no : Expr)
  | unary (op : UnaryOp) (operand : Expr)
  | binary (op : BinaryOp) (lhs rhs : Expr)
  | forList (key? : Option String) (value : String) (collection body : Expr) (cond? : Option Expr)
  | forObject (key? : Option String) (value : String) (collection key body : Expr)
      (grouping : Bool) (cond? : Option Expr)

/-- Keys of an object: a bare name or an expression. -/
inductive Key where
  | name (name : String)
  | expr (expr : Expr)

/-- Steps of a traversal. -/
inductive Access where
  /-- The step `.name`. -/
  | field (name : String)
  /-- The step `[expr]`. -/
  | index (expr : Expr)
  /-- The step `.0`. -/
  | position (index : Nat)
  /-- The step `.*`, with the attribute names right behind it. -/
  | eachField (names : List String)
  /-- The step `[*]`. -/
  | each

/-- Parts of a template. -/
inductive Part where
  | literal (text : String)
  | interpolation (expr : Expr)
  | branch (cond : Expr) (yes : List Part) (no : Option (List Part))
  | loop (key? : Option String) (value : String) (collection : Expr) (body : List Part)
end

instance : Inhabited Expr := ⟨.null⟩

/-- The names that a `for` binds. -/
def boundNames (key? : Option String) (value : String) : List String := key?.toList ++ [value]

end Preflight
