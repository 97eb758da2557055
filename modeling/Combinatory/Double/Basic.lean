/-!
# Double-precision numbers

A double-precision number is a significand of at most 53 bits times a power of two, an
infinity, or undefined.  Zero has a sign that no comparison sees.  A decimal is read as
the nearest such number, and of two that are equally near as the one whose significand
is even; all arithmetic is exact and on natural numbers.

## Main definitions

* `Double`: the type.
* `Double.ofScientific`: the number nearest to a decimal.
* `Double.value?`: the number that a finite one is, exactly.
-/

namespace Combinatory

/-- A double-precision number: `significand * 2 ^ exponent` with its sign, an infinity
with its sign, or no number. -/
inductive Double
  | finite (negative : Bool) (significand : Nat) (exponent : Int)
  | infinite (negative : Bool)
  | undefined
deriving DecidableEq, Repr

namespace Double

/-- The least significand that has all its 53 bits. -/
def fullSignificand : Nat := 1 <<< 52

/-- The exponent of the numbers next to zero. -/
def leastExponent : Int := -1074

/-- The exponent of the numbers next to the infinities. -/
def greatestExponent : Int := 971

/-- A quotient to the nearest integer; a half goes to the even one. -/
def divNearest (n d : Nat) : Nat :=
  let q := n / d
  let r := n % d
  if 2 * r < d then q else if d < 2 * r then q + 1 else if q % 2 = 0 then q else q + 1

/-- The quotient of `n` by `d * 2 ^ e`, as a numerator and a denominator. -/
def scaleDown (n d : Nat) (e : Int) : Nat × Nat := (n <<< (-e).toNat, d <<< e.toNat)

/-- The exponent for which the significand of `n / d` has all its bits, or the least
exponent if that is greater.  The difference of the binary logarithms misses it by at
most one. -/
def exponentOf (n d : Nat) : Int :=
  let guess : Int := n.log2 - d.log2 - 53
  let (a, b) := scaleDown n d guess
  let e := if a / b < 2 * fullSignificand then guess else guess + 1
  if e < leastExponent then leastExponent else e

/-- The number nearest to `n / d`, with its sign.  A significand that is rounded up to
one bit more is halved, and what lies beyond the last finite number is infinite. -/
def ofRatio (negative : Bool) (n d : Nat) : Double :=
  if n = 0 then finite negative 0 leastExponent
  else
    let e := exponentOf n d
    let (a, b) := scaleDown n d e
    let m := divNearest a b
    let (m, e) := if m = 2 * fullSignificand then (fullSignificand, e + 1) else (m, e)
    if greatestExponent < e then infinite negative else finite negative m e

/-- The number nearest to `digits * 10 ^ power`, with its sign. -/
def ofScientific (negative : Bool) (digits : Nat) (power : Int) : Double :=
  ofRatio negative (digits * Nat.pow 10 power.toNat) (Nat.pow 10 (-power).toNat)

/-- Whether a number is finite. -/
def isFinite : Double → Bool
  | finite _ _ _ => true
  | infinite _ | undefined => false

/-- The number that a finite one is, exactly; the sign of zero is no part of it. -/
def value? : Double → Option Dyadic
  | finite negative m e => some (.ofIntWithPrec (if negative then -(m : Int) else m) (-e))
  | infinite _ | undefined => none

/-- A rounded quotient is within half a unit of the exact one. -/
theorem divNearest_near (n : Nat) {d : Nat} (h : 0 < d) :
    2 * (d * divNearest n d) ≤ 2 * n + d ∧ 2 * n ≤ 2 * (d * divNearest n d) + d := by
  have e : d * (n / d) + n % d = n := Nat.div_add_mod n d
  have hr : n % d < d := Nat.mod_lt n h
  have up : d * (n / d + 1) = d * (n / d) + d := Nat.mul_succ ..
  unfold divNearest
  dsimp only
  generalize n / d = q at *
  split
  · omega
  split
  · omega
  split <;> omega

/-- A quotient that lies half way between two integers goes to the even one. -/
theorem divNearest_tie {n d : Nat} (h : 2 * (n % d) = d) : divNearest n d % 2 = 0 := by
  unfold divNearest
  dsimp only
  split
  · omega
  split
  · omega
  split <;> omega

end Double

end Combinatory
