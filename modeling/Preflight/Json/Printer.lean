import Preflight.Datum
import Preflight.Text.Escape

/-!
# Writing JSON

Plain data as JSON text, on one line (`Json.compact`) or indented by two spaces (`Json.pretty`).
Keys keep their order. In strings the quote, the backslash and the control characters below the
space are escaped; everything else is written as it is.
-/

namespace Preflight.Json

/-- A string in quotes. -/
def quote (s : String) : String := String.ofList ('"' :: Text.escape s.toList ++ ['"'])

mutual
/-- JSON text without any blanks. -/
def compact : Datum → String
  | .null => "null"
  | .bool b => if b then "true" else "false"
  | .number n => n.jsonText
  | .string s => quote s
  | .list items => "[" ++ ",".intercalate (compactItems items) ++ "]"
  | .object entries => "\x7b" ++ ",".intercalate (compactEntries entries) ++ "\x7d"

/-- The text of each item. -/
def compactItems : List Datum → List String
  | [] => []
  | d :: ds => compact d :: compactItems ds

/-- The text of each entry. -/
def compactEntries : List (String × Datum) → List String
  | [] => []
  | (k, d) :: es => (quote k ++ ":" ++ compact d) :: compactEntries es
end

/-- Parts on lines of their own, one level deeper than what encloses them. -/
def block (opening closing : String) (depth : Nat) (parts : List String) : String :=
  let pad (n : Nat) : String := "\n" ++ String.ofList (List.replicate (2 * n) ' ')
  match parts with
  | [] => opening ++ closing
  | parts =>
    opening ++ pad (depth + 1) ++ ("," ++ pad (depth + 1)).intercalate parts ++ pad depth ++ closing

mutual
/-- JSON text with each part on a line of its own, at a depth of nesting. -/
def prettyAt (depth : Nat) : Datum → String
  | .list items => block "[" "]" depth (prettyItems depth items)
  | .object entries => block "\x7b" "\x7d" depth (prettyEntries depth entries)
  | d => compact d

/-- The text of each item, one level deeper. -/
def prettyItems (depth : Nat) : List Datum → List String
  | [] => []
  | d :: ds => prettyAt (depth + 1) d :: prettyItems depth ds

/-- The text of each entry, one level deeper. -/
def prettyEntries (depth : Nat) : List (String × Datum) → List String
  | [] => []
  | (k, d) :: es => (quote k ++ ": " ++ prettyAt (depth + 1) d) :: prettyEntries depth es
end

/-- JSON text with each part on a line of its own. -/
def pretty (d : Datum) : String := prettyAt 0 d

end Preflight.Json
