import Preflight.Number.Binary64

/-!
# Decimal notation

Reading and writing 64-bit binary fractions in decimal.

* `Decimal` is a number as written: a sign, a whole number of units and a power of ten;
  `Decimal.parse` reads one and `Decimal.toBinary64?` rounds it once.
* `shortest` finds the fewest digits that read back as the same value, and of those the nearest.
* `Layout` says how digits are laid out; `write` does it.
-/

namespace Preflight

/-- A number as written in decimal: `units · 10^exponent` with a sign. -/
structure Decimal where
  negative : Bool
  units : Nat
  exponent : Int
  deriving DecidableEq, Repr

namespace Decimal

/-- The value of a run of decimal digits. -/
def ofDigits (digits : List Char) : Nat :=
  digits.foldl (fun n c => 10 * n + (c.toNat - '0'.toNat)) 0

/-- The digits of a natural number. -/
def digitsOf (n : Nat) : List Char := Nat.toDigits 10 n

/-- The integer written by an optional sign and at least one digit. -/
def readInt? : List Char → Option Int
  | '-' :: cs => if cs ≠ [] ∧ cs.all Char.isDigit then some (-(ofDigits cs : Int)) else none
  | '+' :: cs => if cs ≠ [] ∧ cs.all Char.isDigit then some (ofDigits cs) else none
  | cs => if cs ≠ [] ∧ cs.all Char.isDigit then some (ofDigits cs) else none

/-- The exponent at the end of a decimal; no text at all is exponent zero. -/
def readExponent? : List Char → Option Int
  | [] => some 0
  | c :: cs => if c = 'e' ∨ c = 'E' then readInt? cs else none

/-- An unsigned decimal: digits with an optional point, at least one digit, then an optional
exponent. -/
def readUnsigned? (cs : List Char) : Option Decimal :=
  let whole := cs.takeWhile Char.isDigit
  let (places, rest) := match cs.dropWhile Char.isDigit with
    | '.' :: ds => (ds.takeWhile Char.isDigit, ds.dropWhile Char.isDigit)
    | ds => ([], ds)
  if whole ++ places = [] then none
  else (readExponent? rest).map fun e => ⟨false, ofDigits (whole ++ places), e - places.length⟩

/-- A decimal with an optional sign, as in `-1.5e3`, `.5` or `7.`. -/
def parse : List Char → Option Decimal
  | '-' :: cs => (readUnsigned? cs).map fun d => { d with negative := true }
  | '+' :: cs => readUnsigned? cs
  | cs => readUnsigned? cs

/-- The nearest 64-bit binary fraction. Sizes far outside the range are settled by the number of
digits before a power of ten is ever computed. -/
def toBinary64? (d : Decimal) : Option Rat :=
  let magnitude : Int := (digitsOf d.units).length + d.exponent
  if d.units = 0 ∨ magnitude < -330 then some 0
  else if 310 < magnitude then none
  else
    let size : Rat :=
      if 0 ≤ d.exponent then ((d.units * Nat.pow 10 d.exponent.toNat : Nat) : Rat)
      else mkRat d.units (Nat.pow 10 (-d.exponent).toNat)
    Binary64.round? (if d.negative then -size else size)

/-- The exponent `p` with `10^p ≤ q < 10^(p+1)`, for positive `q`. -/
def leadingPlace (q : Rat) : Int :=
  let n := q.num.natAbs
  if q.den ≤ n then ((digitsOf (n / q.den)).length : Int) - 1
  else
    let k := (digitsOf (q.den / n)).length
    if n * Nat.pow 10 (k - 1) = q.den then -((k : Int) - 1) else -(k : Int)

/-- The value `m · 10^g`. -/
def onGrid (m : Nat) (g : Int) : Rat :=
  if 0 ≤ g then ((m * Nat.pow 10 g.toNat : Nat) : Rat) else mkRat m (Nat.pow 10 (-g).toNat)

/-- The neighbour of `q` with `k` digits that reads back as `q`, the nearer one if both do and the
even one if they are equally near. -/
def withDigits? (q : Rat) (k : Nat) : Option (Nat × Int) :=
  let g := leadingPlace q - k + 1
  let low := (q / onGrid 1 g).floor.toNat
  let readsBack (m : Nat) : Bool := Binary64.round? (onGrid m g) = some q
  let up : Nat × Int := if low + 1 = Nat.pow 10 k then (Nat.pow 10 (k - 1), g + 1) else (low + 1, g)
  match readsBack low, readsBack (low + 1) with
  | false, false => none
  | true, false => some (low, g)
  | false, true => some up
  | true, true =>
    let below := q - onGrid low g
    let above := onGrid (low + 1) g - q
    if below < above ∨ (below = above ∧ low % 2 = 0) then some (low, g) else some up

/-- The fewest digits, as units and a power of ten, that read back as the positive value `q`. -/
def shortest (q : Rat) : Nat × Int :=
  ((List.range 17).findSome? fun k => withDigits? q (k + 1)).getD (0, 0)

/-- How a number is laid out: the places of the leading digit that are written without an exponent,
counted from the point, and whether a positive exponent has a sign. -/
structure Layout where
  /-- The least position of the point, seen from the first digit, written positionally. -/
  least : Int
  /-- The greatest such position. -/
  most : Int
  /-- Whether a positive exponent is written with a plus sign. -/
  plus : Bool

/-- The digits `units · 10^exponent` in a layout. -/
def write (layout : Layout) (units : Nat) (exponent : Int) : String :=
  let ds := digitsOf units
  let point : Int := ds.length + exponent
  let zeros (n : Int) : List Char := List.replicate n.toNat '0'
  if 0 ≤ exponent ∧ point ≤ layout.most then
    String.ofList (ds ++ zeros exponent ++ ['.', '0'])
  else if 0 < point ∧ point ≤ layout.most then
    String.ofList (ds.take point.toNat ++ '.' :: ds.drop point.toNat)
  else if layout.least < point ∧ point ≤ 0 then
    String.ofList ('0' :: '.' :: zeros (-point) ++ ds)
  else
    let mantissa := match ds with
      | [] => []
      | [d] => [d]
      | d :: rest => d :: '.' :: rest
    let power := point - 1
    let sign := if 0 ≤ power ∧ layout.plus then "+" else ""
    String.ofList mantissa ++ "e" ++ sign ++ toString power

/-- A 64-bit binary fraction in a layout. -/
def format (layout : Layout) (q : Rat) : String :=
  if q.num = 0 then "0.0"
  else
    let (units, exponent) := shortest (if q.num < 0 then -q else q)
    (if q.num < 0 then "-" else "") ++ write layout units exponent

end Decimal
end Preflight
