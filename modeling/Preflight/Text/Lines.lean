import Preflight.Text.Blank

/-!
# Lines

A text as its lines, and the indentation of lines.

* `lines` takes a text apart at `\n` and `\r\n`, and `joinLines` puts lines together with `\n`.
* `sharedIndentation?` is what `unindent` can take off every line; `indent` adds it.
-/

namespace Preflight.Text

/-- The lines of a text without their ends; behind the last end stands one more line. -/
def lines : List Char → List (List Char)
  | [] => [[]]
  | '\n' :: cs => [] :: lines cs
  | '\r' :: '\n' :: cs => [] :: lines cs
  | c :: cs => match lines cs with
    | l :: ls => (c :: l) :: ls
    | [] => [[c]]

/-- Puts lines together. -/
def joinLines (ls : List (List Char)) : List Char := ['\n'].intercalate ls

/-- The number of blanks that all lines but empty ones start with; none if one starts with no
blank. -/
def sharedIndentation? (ls : List (List Char)) : Option Nat :=
  let sizes := (ls.filter fun l => !l.isEmpty).map fun l => (l.takeWhile isBlank).length
  if sizes.contains 0 then none else sizes.min?

/-- Takes a number of characters off the start of each line. -/
def unindent (size : Nat) (ls : List (List Char)) : List (List Char) := ls.map (List.drop size)

/-- Puts spaces before each line that is not empty. -/
def indent (size : Nat) (ls : List (List Char)) : List (List Char) :=
  ls.map fun l => if l.isEmpty then [] else List.replicate size ' ' ++ l

end Preflight.Text
