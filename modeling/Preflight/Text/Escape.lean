/-!
# Escapes inside quotes

The escapes that JSON text and string literals share: the quote, the backslash and control
characters are escaped; everything else is written as it is.

* `escape` counts the characters below the space as control characters and writes their code points
  in lower case.
* `escapeControls` counts also U+007F to U+009F and writes code points in upper case.
-/

namespace Preflight.Text

/-- A hexadecimal digit in lower case. -/
def hexDigit (n : Nat) : Char := if n < 10 then Char.ofNat (48 + n) else Char.ofNat (87 + n)

/-- A hexadecimal digit in upper case. -/
def upperHexDigit (n : Nat) : Char := if n < 10 then Char.ofNat (48 + n) else Char.ofNat (55 + n)

/-- The escaped form of a character inside a string. -/
def escapeChar (c : Char) : List Char :=
  match c with
  | '"' => ['\\', '"']
  | '\\' => ['\\', '\\']
  | '\n' => ['\\', 'n']
  | '\r' => ['\\', 'r']
  | '\t' => ['\\', 't']
  | '\x08' => ['\\', 'b']
  | '\x0c' => ['\\', 'f']
  | c =>
    if c.toNat < 32 then
      ['\\', 'u', '0', '0', hexDigit (c.toNat / 16), hexDigit (c.toNat % 16)]
    else [c]

/-- The escaped form of a text. -/
def escape (cs : List Char) : List Char := cs.flatMap escapeChar

/-- Whether a control character is escaped by its code point. -/
def isCodedControl (c : Char) : Bool :=
  (c.toNat < 32 ∨ (127 ≤ c.toNat ∧ c.toNat < 160)) ∧ !"\n\r\t\x08\x0c".toList.contains c

/-- The escaped form of a text in which all control characters are escaped. -/
def escapeControls (cs : List Char) : List Char :=
  cs.flatMap fun c =>
    if isCodedControl c then
      ['\\', 'u', '0', '0', upperHexDigit (c.toNat / 16), upperHexDigit (c.toNat % 16)]
    else escapeChar c

end Preflight.Text
