import Preflight.Value.Basic

/-!
# Values as strings

The string form of a value: a truth value, a number or a string has one, and so has an object whose
only key is `value`, namely that of its inner value. Everything else is refused with its cause.
-/

namespace Preflight

/-- Why a value has no string form. -/
inductive NotText where
  /-- The innermost value is of a type without a string form. -/
  | unsupported (found : String)
  /-- The innermost value is not known yet. -/
  | notKnown
  /-- There is no value at all. -/
  | noValue
  deriving DecidableEq, Repr

/-- How a cause is worded. -/
def NotText.message : NotText → String
  | .unsupported found =>
    "only primitive types are supported - bool, number, and string (found " ++ found ++ ")"
  | .notKnown => "value is not known yet"
  | .noValue => "no value"

/-- How a truth value is written. -/
def boolText (b : Bool) : String := if b then "true" else "false"

/-- The string form of a value. -/
def Value.toText : Value → Except NotText String
  | .bool b => .ok (boolText b)
  | .number n => .ok n.text
  | .string s => .ok s
  | .object [(key, inner)] => if key = "value" then inner.toText else .error (.unsupported "object")
  | .object _ => .error (.unsupported "object")
  | .unknown => .error .notKnown
  | .list _ => .error (.unsupported "list")
  | .null => .error (.unsupported "null")

end Preflight
