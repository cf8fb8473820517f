import Preflight.Diagnostic

/-!
# What tags may be made of

Workspace tags must be open to inspection: the tags are written as an object literal, and its keys
and values call no functions and refer to variables, locals, resources and the `value` of a
parameter only. The checks look at expressions as they are written.

* `TagPolicy.tags` checks the expression that holds the tags;
* `TagPolicy.entry` checks a key or a value.
-/

namespace Preflight

/-- The type of the data sources that declare parameters. -/
def parameterType : String := "coder_parameter"

/-- The kind of an expression in messages. -/
def Expr.kind : Expr → String
  | .null => "null"
  | .bool _ => "bool"
  | .number _ => "number"
  | .string _ => "string"
  | .array _ => "tuple constructor"
  | .object _ => "object constructor"
  | .template .. => "template"
  | .variable _ => "variable reference"
  | .traversal .. => "reference"
  | .call .. => "function call"
  | .paren _ => "parenthesized expression"
  | .conditional .. => "conditional expression"
  | .unary .. => "operation"
  | .binary .. => "operation"
  | .forList .. => "for expression"
  | .forObject .. => "for expression"

/-- Why an expression may not be used in tags. -/
inductive Disallowed where
  | notObjectLiteral (kind : String)
  | functionCall (name : String)
  /-- A data source that is no parameter. -/
  | dataSource (reference : String)
  /-- An attribute of a parameter that is not its value. -/
  | parameterAttribute (reference : String)
  deriving DecidableEq, Repr

/-- How a reason is reported. -/
def Disallowed.diagnostic : Disallowed → Diagnostic
  | .notObjectLiteral kind =>
    .error .invalidAttributeType "Invalid tags attribute"
      ("The \"tags\" attribute must be an object literal, found " ++ kind ++ ".")
  | .functionCall name =>
    .error .unsupportedExpressionShape "Function calls not allowed"
      ("Functions may not be called here (found " ++ Text.quoted name ++ ").")
  | .dataSource reference =>
    .error .unsupportedExpressionShape "Invalid data source reference"
      ("Only the " ++ Text.quoted parameterType ++ " data source may be referenced here (found " ++
        Text.quoted reference ++ ").")
  | .parameterAttribute reference =>
    .error .unsupportedExpressionShape "Invalid parameter reference"
      ("Only the \"value\" attribute of a " ++ Text.quoted parameterType ++
        " may be referenced here (found " ++ Text.quoted reference ++ ").")

namespace TagPolicy

/-- The entries of an object literal, or why an expression is none. -/
def tags : Expr → Except Disallowed (List (Key × Expr))
  | .object items => .ok items
  | .call function _ _ => .error (.functionCall function)
  | e => .error (.notObjectLiteral e.kind)

/-- Why a reference may not be used. -/
def refusal? (r : Reference) : Option Disallowed :=
  if r.root ≠ "data" then none
  else if r.names[0]? ≠ some parameterType then some (.dataSource r.text)
  else if r.names[2]? ≠ some "value" then some (.parameterAttribute r.text)
  else none

/-- Why an expression may not be a key or a value: its calls, then its references. -/
def entry (e : Expr) : List Disallowed :=
  e.calls.map Disallowed.functionCall ++ e.references.filterMap refusal?

end TagPolicy
end Preflight
