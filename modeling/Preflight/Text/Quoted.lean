import Preflight.Text.Printable

/-!
# Quoted text in messages

A text as a message shows it: in quotes, with the quote and the backslash escaped, the common
control characters by letter, and every other character that is not printable by its code point.
-/

namespace Preflight.Text

/-- The digits of a number in base sixteen, lower case. -/
def hexText (n : Nat) : List Char := Nat.toDigits 16 n

/-- A character as a message shows it. -/
def showChar (c : Char) : List Char :=
  match c with
  | '"' => ['\\', '"']
  | '\\' => ['\\', '\\']
  | '\n' => ['\\', 'n']
  | '\r' => ['\\', 'r']
  | '\t' => ['\\', 't']
  | '\x00' => ['\\', '0']
  | c => if isPrintable c then [c] else ['\\', 'u', '\x7b'] ++ hexText c.toNat ++ ['\x7d']

/-- A text in quotes. -/
def quoted (s : String) : String :=
  String.ofList ('"' :: s.toList.flatMap showChar ++ ['"'])

end Preflight.Text
