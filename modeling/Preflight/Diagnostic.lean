import Preflight.Context

/-!
# Diagnostics

Everything that goes wrong while parameters and tags are resolved is reported as a diagnostic.
Diagnostics are gathered in order beside the results, so that one failure hides no other result.

* `Diagnostic.text` is how a diagnostic is shown, `Diagnostics.text` shows several.
* `Reported` is a value with the diagnostics that came with it.
-/

namespace Preflight

/-- Where something is declared. -/
structure Location where
  file? : Option String
  line? : Option Nat
  deriving DecidableEq, Repr

/-- A place as it is shown. -/
def Location.text (l : Location) : String :=
  l.file?.getD "<input>" ++ match l.line? with
    | some n => " line " ++ toString n
    | none => ""

/-- How serious a diagnostic is. -/
inductive Severity where
  | warning
  | error
  deriving DecidableEq, Repr

/-- What a diagnostic is about. -/
inductive DiagnosticKind where
  | missingRequiredArgument
  | invalidAttributeType
  | unsupportedExpressionShape
  | typeConversionFailure
  | unsupportedValueShape
  | evaluationFailure
  deriving DecidableEq, Repr

/-- The word for a severity at the start of a diagnostic. -/
def Severity.text : Severity → String
  | .warning => "Warning"
  | .error => "Error"

/-- The word for a severity in data. -/
def Severity.word : Severity → String
  | .warning => "warning"
  | .error => "error"

namespace DiagnosticKind

/-- A kind as it is shown. -/
def text : DiagnosticKind → String
  | .missingRequiredArgument => "missing required argument"
  | .invalidAttributeType => "invalid attribute type"
  | .unsupportedExpressionShape => "unsupported expression shape"
  | .typeConversionFailure => "type conversion failure"
  | .unsupportedValueShape => "unsupported value shape"
  | .evaluationFailure => "evaluation failure"

/-- The name of a kind in data. -/
def word : DiagnosticKind → String
  | .missingRequiredArgument => "MissingRequiredArgument"
  | .invalidAttributeType => "InvalidAttributeType"
  | .unsupportedExpressionShape => "UnsupportedExpressionShape"
  | .typeConversionFailure => "TypeConversionFailure"
  | .unsupportedValueShape => "UnsupportedValueShape"
  | .evaluationFailure => "EvaluationFailure"

/-- Every kind, in order. -/
def all : List DiagnosticKind :=
  [.missingRequiredArgument, .invalidAttributeType, .unsupportedExpressionShape,
    .typeConversionFailure, .unsupportedValueShape, .evaluationFailure]

end DiagnosticKind

/-- A failure as it is reported. -/
structure Diagnostic where
  severity : Severity
  kind : DiagnosticKind
  summary : String
  detail : String
  location? : Option Location := none
  /-- The text of the expression at fault. -/
  expression? : Option String := none
  /-- The address of the block at fault. -/
  context? : Option String := none
  deriving DecidableEq, Repr

/-- Diagnostics in the order in which they came up. -/
abbrev Diagnostics := List Diagnostic

namespace Diagnostic

/-- An error without a place. -/
def error (kind : DiagnosticKind) (summary detail : String) : Diagnostic :=
  { severity := .error, kind, summary, detail }

/-- The same diagnostic as a warning. -/
def asWarning (d : Diagnostic) : Diagnostic := { d with severity := .warning }

/-- The same diagnostic about an expression. -/
def about (d : Diagnostic) (e : Expr) : Diagnostic := { d with expression? := some e.text }

/-- The same diagnostic with its place. -/
def located (d : Diagnostic) (location? : Option Location) (address : String) : Diagnostic :=
  { d with location?, context? := some address }

/-- Whether a diagnostic is an error. -/
def isError (d : Diagnostic) : Bool := d.severity = .error

/-- A diagnostic as it is shown; the context shows only beside a location. -/
def text (d : Diagnostic) : String :=
  d.severity.text ++ ": " ++ d.summary ++ (if d.detail = "" then "" else "; " ++ d.detail) ++
    match d.location? with
    | none => ""
    | some l => "\n  on " ++ l.text ++ match d.context? with
      | some address => ", in " ++ address
      | none => ""

end Diagnostic

namespace Diagnostics

/-- Whether there is an error among the diagnostics. -/
def hasErrors (ds : Diagnostics) : Bool := ds.any Diagnostic.isError

/-- Diagnostics as they are shown, one below another. -/
def text (ds : Diagnostics) : String := "\n".intercalate (ds.map Diagnostic.text)

end Diagnostics

/-- The diagnostic of an expression without a value. -/
def EvalError.diagnostic (err : EvalError) (e : Expr) : Diagnostic :=
  (Diagnostic.error .evaluationFailure err.summary err.message).about e

/-- A value and what was reported on the way to it. -/
structure Reported (α : Type) where
  value : α
  diagnostics : Diagnostics

end Preflight
