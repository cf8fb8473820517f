import Preflight.Text.Blank
import Preflight.Text.Quoted

/-!
# Supplied parameter values

Values that the caller supplies for parameters by name, as in `name=value`. The last value of a name
counts.
-/

namespace Preflight

/-- A value supplied for a parameter. -/
structure Supplied where
  name : String
  value : String
  deriving DecidableEq, Repr

/-- The message about an argument that is not `name=value`. -/
def Supplied.malformed (s : String) : String :=
  "invalid parameter value " ++ Text.quoted s ++ ", expected name=value"

/-- Reads `name=value`: the name is trimmed and not blank, the value is what follows the first
equals sign. -/
def Supplied.parse? (s : String) : Option Supplied :=
  let name := Text.trimChars (s.toList.takeWhile (· ≠ '='))
  match s.toList.dropWhile (· ≠ '=') with
  | [] => none
  | _ :: value => if name = [] then none else some ⟨String.ofList name, String.ofList value⟩

/-- All supplied values, in order. -/
abbrev Input := List Supplied

/-- The value supplied for a name: the last one. -/
def Input.value? (input : Input) (name : String) : Option String :=
  (input.reverse.find? fun s => s.name = name).map Supplied.value

end Preflight
