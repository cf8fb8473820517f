import Preflight.Json.Reader
import Preflight.Value.Basic

/-!
# Values and JSON trees

A value as a JSON tree, and a JSON tree as a value.

* `Value.toJson` writes a value into a tree. A tree has null for what is unknown, and it keeps the entries
  of an object in order of their names.
* `Value.ofJson` reads a tree. In a tree whole numbers and fractions are told apart by how they were put
  in, so a whole number may stand in it as a fraction. As a value it is an integer if it is in range.
-/

namespace Preflight

/-- The number that a number of a JSON tree is: an integer that fits a signed word, else one that fits an
unsigned word, else what its value is as a 64-bit binary fraction. -/
def Number.ofJson (n : Number) : Number :=
  match n.whole? with
  | some i => .int i
  | none =>
    match n.natural? with
    | some m => .int m
    | none => .ofBinary64 n.toBinary64

namespace Value

mutual
/-- A value as a JSON tree. -/
def toJson : Value → Datum
  | .null => .null
  | .unknown => .null
  | .bool b => .bool b
  | .number n => .number n
  | .string s => .string s
  | .list items => .list (toJsonItems items)
  | .object entries => .object (toJsonEntries [] entries)

/-- Each item as a tree. -/
def toJsonItems : List Value → List Datum
  | [] => []
  | v :: vs => v.toJson :: toJsonItems vs

/-- Entries put as trees among those that are there, one after another. -/
def toJsonEntries (before : List (String × Datum)) : List (String × Value) → List (String × Datum)
  | [] => before
  | (k, v) :: es => toJsonEntries (Json.insertSorted k v.toJson before) es
end

mutual
/-- A JSON tree as a value. -/
def ofJson : Datum → Value
  | .null => .null
  | .bool b => .bool b
  | .number n => .number n.ofJson
  | .string s => .string s
  | .list items => .list (ofJsonItems items)
  | .object entries => .object (ofJsonEntries entries)

/-- Each item as a value. -/
def ofJsonItems : List Datum → List Value
  | [] => []
  | d :: ds => ofJson d :: ofJsonItems ds

/-- Each entry as a value. -/
def ofJsonEntries : List (String × Datum) → List (String × Value)
  | [] => []
  | (k, d) :: es => (k, ofJson d) :: ofJsonEntries es
end

end Value
end Preflight
