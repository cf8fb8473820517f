import Preflight.Number.Decimal

/-!
# Numbers

A number is an integer of at most 64 bits, signed or unsigned, or a 64-bit binary fraction.

* Integers of one sign are added, subtracted and multiplied exactly; every other combination goes
  through 64-bit binary fractions, and so do results that leave the range of integers.
* A result or literal that turns out whole and in range is an integer again (`ofBinary64`); the
  negative of a fraction, or of an integer without one in range, stays a fraction.
* Two integers are compared exactly, an integer and a fraction after rounding the integer.
* `text` writes the fewest digits that read back; `jsonText` differs in the sign of exponents.
-/

namespace Preflight

/-- An integer or a 64-bit binary fraction. -/
inductive Number where
  | int (value : Int)
  | real (value : Rat)
  deriving DecidableEq, Repr

namespace Number

/-- The integers that fit a signed or an unsigned 64-bit word. -/
def inRange (n : Int) : Bool := -(Nat.pow 2 63 : Int) ≤ n ∧ n < Nat.pow 2 64

/-- A 64-bit binary fraction as a number: an integer if it is whole and in range. -/
def ofBinary64 (q : Rat) : Number :=
  if q.den = 1 ∧ inRange q.num then .int q.num else .real q

/-- The value as a 64-bit binary fraction; large integers are rounded. -/
def toBinary64 : Number → Rat
  | .int n => Binary64.nearest n
  | .real q => q

/-- The number nearest to an exact result. -/
def ofRat (q : Rat) : Number := ofBinary64 (Binary64.nearest q)

/-- Whether two integers are both negative or both not. -/
def sameSign (a b : Int) : Bool := (a < 0) = (b < 0)

/-- An operation done on integers of one sign where the result is in range, and otherwise on
64-bit binary fractions. -/
def arithmetic (exact : Int → Int → Int) (approximate : Rat → Rat → Rat) : Number → Number → Number
  | .int a, .int b =>
    if sameSign a b ∧ inRange (exact a b) then .int (exact a b)
    else ofRat (approximate (Binary64.nearest a) (Binary64.nearest b))
  | a, b => ofRat (approximate a.toBinary64 b.toBinary64)

/-- The quotient cut off at the point. -/
def truncate (q : Rat) : Int := if q < 0 then -(-q).floor else q.floor

/-- The sum. -/
def add : Number → Number → Number := arithmetic (· + ·) (· + ·)

/-- The difference. -/
def sub : Number → Number → Number := arithmetic (· - ·) (· - ·)

/-- The product. -/
def mul : Number → Number → Number := arithmetic (· * ·) (· * ·)

/-- The remainder has the sign of the dividend. -/
def rem : Number → Number → Number :=
  arithmetic Int.tmod fun a b => a - b * (truncate (a / b) : Rat)

/-- Division is always done on 64-bit binary fractions. -/
def div (a b : Number) : Number := ofRat (a.toBinary64 / b.toBinary64)

/-- The negative. -/
def neg : Number → Number
  | .int n => if inRange (-n) then .int (-n) else .real (-(Binary64.nearest n))
  | .real q => .real (-q)

/-- Equality of numbers: two integers exactly, all else as 64-bit binary fractions. -/
def equal : Number → Number → Bool
  | .int a, .int b => a = b
  | a, b => a.toBinary64 = b.toBinary64

/-- The strict order of numbers, with the rounding of `equal`. -/
def less : Number → Number → Bool
  | .int a, .int b => a < b
  | a, b => a.toBinary64 < b.toBinary64

/-- The order of numbers, with the rounding of `equal`. -/
def lessEq : Number → Number → Bool
  | .int a, .int b => a ≤ b
  | a, b => a.toBinary64 ≤ b.toBinary64

/-- The value if it is an integer from zero on. -/
def natural? : Number → Option Nat
  | .int n => if 0 ≤ n then some n.toNat else none
  | .real _ => none

/-- The value if it is an integer that fits a signed 64-bit word. -/
def whole? : Number → Option Int
  | .int n => if -(Nat.pow 2 63 : Int) ≤ n ∧ n < Nat.pow 2 63 then some n else none
  | .real _ => none

/-- Fractions are written positionally while the point stands within sixteen digits of the first
digit or at most four zeros follow it. -/
def layout : Decimal.Layout := ⟨-5, 16, false⟩

/-- A number as it is written in texts. -/
def text : Number → String
  | .int n => toString n
  | .real q => Decimal.format layout q

/-- In JSON a positive exponent has a sign. -/
def jsonText : Number → String
  | .int n => toString n
  | .real q => Decimal.format { layout with plus := true } q

/-- The number nearest to a decimal, if it is not too large. -/
def ofDecimal? (d : Decimal) : Option Number := d.toBinary64?.map ofBinary64

/-- Reads a number written by hand: an integer that fits a signed 64-bit word as it is, all else as
a 64-bit binary fraction. -/
def parse? (cs : List Char) : Option Number :=
  match Decimal.readInt? cs with
  | some n =>
    if -(Nat.pow 2 63 : Int) ≤ n ∧ n < Nat.pow 2 63 then some (.int n) else (Decimal.parse cs).bind ofDecimal?
  | none => (Decimal.parse cs).bind ofDecimal?

instance (n : Nat) : OfNat Number n := ⟨.int n⟩

end Number
end Preflight
