import Preflight.Datum

/-!
# Reading JSON

`Json.read?` reads one JSON text and nothing after it.

* An object's keys come out in order of their characters; of a repeated key the last value stays.
* Arrays and objects nest at most 127 deep.
* A whole number is kept exactly while it fits 64 bits, signed or unsigned. Every other number is
  its first digits, as many as fit an unsigned 64-bit word, rounded, then multiplied or divided by
  a power of ten, and rounded again; one that is too large is refused.
* Escapes may not leave half of a surrogate pair, and control characters must be escaped.
-/

namespace Preflight.Json

/-- The blanks of JSON. -/
def isBlank (c : Char) : Bool := c = ' ' ∨ c = '\n' ∨ c = '\t' ∨ c = '\r'

/-- Drops blanks. -/
def skipBlanks (cs : List Char) : List Char := cs.dropWhile isBlank

/-- The value of a hexadecimal digit. -/
def hexValue? (c : Char) : Option Nat :=
  if c.isDigit then some (c.toNat - 48)
  else if 'a' ≤ c ∧ c ≤ 'f' then some (c.toNat - 87)
  else if 'A' ≤ c ∧ c ≤ 'F' then some (c.toNat - 55)
  else none

/-- The value of four hexadecimal digits. -/
def hex4? (a b c d : Char) : Option Nat := do
  let a ← hexValue? a
  let b ← hexValue? b
  let c ← hexValue? c
  let d ← hexValue? d
  return 4096 * a + 256 * b + 16 * c + d

/-- The character of a plain escape. -/
def unescape? : Char → Option Char
  | '"' => some '"'
  | '\\' => some '\\'
  | '/' => some '/'
  | 'b' => some '\x08'
  | 'f' => some '\x0c'
  | 'n' => some '\n'
  | 'r' => some '\r'
  | 't' => some '\t'
  | _ => none

/-- The characters of a string after its opening quote, and what follows the closing one. The first
argument is the upper half of a surrogate pair whose lower half has to come next. -/
def readString? : Option Nat → List Char → Option (List Char × List Char)
  | some upper, '\\' :: 'u' :: a :: b :: c :: d :: cs => do
    let lower ← hex4? a b c d
    if 0xDC00 ≤ lower ∧ lower < 0xE000 then
      let (s, rest) ← readString? none cs
      return (Char.ofNat (0x10000 + (upper - 0xD800) * 1024 + (lower - 0xDC00)) :: s, rest)
    else none
  | some _, _ => none
  | none, [] => none
  | none, '"' :: cs => some ([], cs)
  | none, '\\' :: 'u' :: a :: b :: c :: d :: cs => do
    let u ← hex4? a b c d
    if 0xD800 ≤ u ∧ u < 0xDC00 then readString? (some u) cs
    else if 0xDC00 ≤ u ∧ u < 0xE000 then none
    else
      let (s, rest) ← readString? none cs
      return (Char.ofNat u :: s, rest)
  | none, '\\' :: e :: cs => do
    let c ← unescape? e
    let (s, rest) ← readString? none cs
    return (c :: s, rest)
  | none, c :: cs =>
    if c.toNat < 32 ∨ c = '\\' then none
    else do
      let (s, rest) ← readString? none cs
      return (c :: s, rest)

/-- The largest unsigned 64-bit word. -/
def wordLimit : Nat := Nat.pow 2 64 - 1

/-- Digits taken up while the number they make fits a word: the number, how many digits were taken
and the digits left over. -/
def takeDigits : Nat → Nat → List Char → Nat × Nat × List Char
  | n, count, [] => (n, count, [])
  | n, count, c :: cs =>
    let m := 10 * n + (c.toNat - 48)
    if m ≤ wordLimit then takeDigits m (count + 1) cs else (n, count, c :: cs)

/-- A power of ten up to `10^308`. -/
def powerOfTen (k : Nat) : Rat := (Nat.pow 10 k : Rat)

/-- A rounded number divided by a power of ten, in steps of at most `10^308`, each rounded. -/
def divideByTen (f : Rat) (k : Nat) : Rat :=
  if f = 0 then 0
  else if k ≤ 308 then Binary64.nearest (f / Binary64.nearest (powerOfTen k))
  else divideByTen (Binary64.nearest (f / Binary64.nearest (powerOfTen 308))) (k - 308)
termination_by k

/-- The first digits of a number and a power of ten, each rounded. -/
def scale? (significand : Nat) (exponent : Int) : Option Rat :=
  let f := Binary64.nearest significand
  if 0 ≤ exponent then
    if exponent ≤ 308 then
      Binary64.round? (f * Binary64.nearest (powerOfTen exponent.toNat))
    else if f = 0 then some 0 else none
  else some (divideByTen f (min (-exponent).toNat 2000))

/-- A number in its parts: the digits before the point, those after it, and the exponent. -/
structure Literal where
  whole : List Char
  places : Option (List Char)
  exponent : Option (Bool × List Char)

/-- The value of a number without its sign, as a fraction. -/
def Literal.magnitude? (l : Literal) : Option Rat :=
  let (n, _, dropped) := takeDigits 0 0 l.whole
  let (n, exponent) : Nat × Int :=
    match l.places with
    | none => (n, dropped.length)
    | some ds =>
      let (m, count, _) := takeDigits n 0 ds
      (m, (dropped.length : Int) - count)
  match l.exponent with
  | none => scale? n exponent
  | some (negative, ds) =>
    let e : Int := Decimal.ofDigits ds
    if e ≤ 2147483647 then scale? n (if negative then exponent - e else exponent + e)
    else if n = 0 ∨ negative then some 0 else none

/-- The number a literal stands for. -/
def Literal.toNumber? (negative : Bool) (l : Literal) : Option Number :=
  let whole : Int := Decimal.ofDigits l.whole
  match l.places, l.exponent with
  | none, none =>
    let n := if negative then -whole else whole
    if Number.inRange n then some (.int n)
    else l.magnitude?.map fun q => Number.ofBinary64 (if negative then -q else q)
  | _, _ => l.magnitude?.map fun q => Number.ofBinary64 (if negative then -q else q)

/-- Splits a text into the digits it starts with and the rest. -/
def spanDigits (cs : List Char) : List Char × List Char :=
  (cs.takeWhile Char.isDigit, cs.dropWhile Char.isDigit)

/-- The places after a point, if there is a point. -/
def readPlaces? : List Char → Option (Option (List Char) × List Char)
  | '.' :: cs =>
    let (ds, rest) := spanDigits cs
    if ds = [] then none else some (some ds, rest)
  | cs => some (none, cs)

/-- The exponent, if there is one. -/
def readPower? : List Char → Option (Option (Bool × List Char) × List Char)
  | [] => some (none, [])
  | c :: cs =>
    if c = 'e' ∨ c = 'E' then
      let (negative, digits) := match cs with
        | '-' :: ds => (true, ds)
        | '+' :: ds => (false, ds)
        | ds => (false, ds)
      let (ds, rest) := spanDigits digits
      if ds = [] then none else some (some (negative, ds), rest)
    else some (none, c :: cs)

/-- An unsigned number: no leading zeros, then places, then an exponent. -/
def readLiteral? (cs : List Char) : Option (Literal × List Char) := do
  let (whole, rest) := spanDigits cs
  if whole = [] ∨ (whole.head? = some '0' ∧ 1 < whole.length) then none
  else
    let (places, rest) ← readPlaces? rest
    let (exponent, rest) ← readPower? rest
    return (⟨whole, places, exponent⟩, rest)

/-- Reads a number. -/
def readNumber? : List Char → Option (Number × List Char)
  | '-' :: cs => do
    let (l, rest) ← readLiteral? cs
    return (← l.toNumber? true, rest)
  | cs => do
    let (l, rest) ← readLiteral? cs
    return (← l.toNumber? false, rest)

/-- Gives a key a value in entries that are in order of their keys. -/
def insertSorted (key : String) (d : Datum) : List (String × Datum) → List (String × Datum)
  | [] => [(key, d)]
  | (k, e) :: es =>
    if k = key then (k, d) :: es
    else if key < k then (key, d) :: (k, e) :: es
    else (k, e) :: insertSorted key d es

/-- Drops a word from the start of a text. -/
def stripWord? : List Char → List Char → Option (List Char)
  | [], cs => some cs
  | w :: ws, c :: cs => if w = c then stripWord? ws cs else none
  | _ :: _, [] => none

mutual
/-- One value and the text after it. The first argument bounds the steps of the reading, the second
the depth of nesting. -/
def readDatum? : Nat → Nat → List Char → Option (Datum × List Char)
  | 0, _, _ => none
  | fuel + 1, depth, cs =>
    match skipBlanks cs with
    | [] => none
    | '"' :: rest => do
      let (s, rest) ← readString? none rest
      return (.string (String.ofList s), rest)
    | '[' :: rest =>
      match depth with
      | 0 => none
      | depth + 1 =>
        match skipBlanks rest with
        | ']' :: rest => some (.list [], rest)
        | rest => do
          let (items, rest) ← readItems? fuel depth rest
          return (.list items, rest)
    | '{' :: rest =>
      match depth with
      | 0 => none
      | depth + 1 =>
        match skipBlanks rest with
        | '}' :: rest => some (.object [], rest)
        | rest => do
          let (entries, rest) ← readEntries? fuel depth [] rest
          return (.object entries, rest)
    | 'n' :: rest => (stripWord? ['u', 'l', 'l'] rest).map fun rest => (.null, rest)
    | 't' :: rest => (stripWord? ['r', 'u', 'e'] rest).map fun rest => (.bool true, rest)
    | 'f' :: rest => (stripWord? ['a', 'l', 's', 'e'] rest).map fun rest => (.bool false, rest)
    | cs => do
      let (n, rest) ← readNumber? cs
      return (.number n, rest)

/-- The items of an array up to its closing bracket. -/
def readItems? : Nat → Nat → List Char → Option (List Datum × List Char)
  | 0, _, _ => none
  | fuel + 1, depth, cs => do
    let (d, rest) ← readDatum? fuel depth cs
    match skipBlanks rest with
    | ',' :: rest => do
      let (ds, rest) ← readItems? fuel depth rest
      return (d :: ds, rest)
    | ']' :: rest => return ([d], rest)
    | _ => none

/-- The entries of an object up to its closing brace, added to those that came before. -/
def readEntries? :
    Nat → Nat → List (String × Datum) → List Char → Option (List (String × Datum) × List Char)
  | 0, _, _, _ => none
  | fuel + 1, depth, entries, cs =>
    match skipBlanks cs with
    | '"' :: rest => do
      let (key, rest) ← readString? none rest
      match skipBlanks rest with
      | ':' :: rest => do
        let (d, rest) ← readDatum? fuel depth rest
        let entries := insertSorted (String.ofList key) d entries
        match skipBlanks rest with
        | ',' :: rest => readEntries? fuel depth entries rest
        | '}' :: rest => return (entries, rest)
        | _ => none
      | _ => none
    | _ => none
end

/-- Reads a text that holds one JSON value and blanks around it. -/
def read? (s : String) : Option Datum :=
  let cs := s.toList
  match readDatum? (2 * cs.length + 2) 127 cs with
  | some (d, rest) => if skipBlanks rest = [] then some d else none
  | none => none

end Preflight.Json
