/-!
# Rounding to 64-bit binary fractions

A finite 64-bit binary fraction is a rational `m · 2^e` with `m` below `2^53` in size and `e` at
least `-1074`. All arithmetic on such numbers is done exactly on rationals and rounded once.

* `halfEven` rounds a quotient to the nearest integer, a half going to the even neighbour;
* `round?` rounds a rational to the nearest 64-bit binary fraction, unless it is too large;
* `nearest` does the same and stays at `largest` where `round?` gives nothing.
-/

namespace Preflight.Binary64

/-- The integer nearest to `n / d`; a half goes to the even neighbour. -/
def halfEven (n d : Nat) : Nat :=
  let q := n / d
  let r := n % d
  if 2 * r < d then q
  else if d < 2 * r then q + 1
  else if q % 2 = 0 then q else q + 1

/-- The rational `m · 2^e`. -/
def scaled (m : Nat) (e : Int) : Rat :=
  if 0 ≤ e then ((m * Nat.pow 2 e.toNat : Nat) : Rat) else mkRat m (Nat.pow 2 (-e).toNat)

/-- The exponent of the last place of `n / d`: the least one, from `-1074` on, that leaves at most
53 binary digits before the point. -/
def lastPlace (n d : Nat) : Int :=
  let low : Int := (n.log2 : Int) - (d.log2 : Int) - 53
  let reaches : Bool :=
    if 0 ≤ low + 53 then d * Nat.pow 2 (low + 53).toNat ≤ n
    else d ≤ n * Nat.pow 2 (-(low + 53)).toNat
  max (if reaches then low + 1 else low) (-1074)

/-- Nearest binary fraction to `n / d`, before the size is looked at. -/
def roundMagnitude (n d : Nat) : Rat :=
  let e := lastPlace n d
  let m := if 0 ≤ e then halfEven n (d * Nat.pow 2 e.toNat) else halfEven (n * Nat.pow 2 (-e).toNat) d
  scaled m e

/-- The largest finite value. -/
def largest : Rat := scaled (Nat.pow 2 53 - 1) 971

/-- The 64-bit binary fraction nearest to `q`, or nothing if `q` is too large for one. -/
def round? (q : Rat) : Option Rat :=
  if q.num = 0 then some 0
  else
    let r := roundMagnitude q.num.natAbs q.den
    if r ≤ largest then some (if q.num < 0 then -r else r) else none

/-- The 64-bit binary fraction nearest to `q`, at most `largest` in size. -/
def nearest (q : Rat) : Rat :=
  (round? q).getD (if q.num < 0 then -largest else largest)

end Preflight.Binary64
