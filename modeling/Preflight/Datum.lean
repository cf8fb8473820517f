import Preflight.Entries
import Preflight.Number.Basic

/-!
# Plain data

A datum is a value without anything left open: null, a truth value, a number, a string, a list or
an object whose entries stand in insertion order. Evaluation computes data, and JSON and YAML
write data.
-/

namespace Preflight

/-- Plain data. -/
inductive Datum where
  | null
  | bool (value : Bool)
  | number (value : Number)
  | string (value : String)
  | list (items : List Datum)
  | object (entries : List (String × Datum))

namespace Datum

/-- Data for an optional string. -/
def ofString? : Option String → Datum
  | some s => .string s
  | none => .null

/-- Data for an optional integer. -/
def ofInt? : Option Int → Datum
  | some n => .number (.int n)
  | none => .null

end Datum
end Preflight
