import Combinatory.Double.Basic

/-!
# Sums of double-precision numbers

The sum of two finite numbers is taken exactly and then rounded once.  Infinities of one
sign keep it; two of different signs have no sum.

## Main definitions

* `Double.ofInt`: the number nearest to an integer.
* `Double.add`, `Double.neg`, `Double.sub`: sums and differences.
* `Double.wholes?`: the whole steps in a number.
-/

namespace Combinatory

namespace Double

/-- The number nearest to an exact one; a zero has the sign given. -/
def ofDyadic (negativeZero : Bool) (x : Dyadic) : Double :=
  let q := x.toRat
  if q.num = 0 then finite negativeZero 0 leastExponent
  else ofRatio (decide (q.num < 0)) q.num.natAbs q.den

/-- The number nearest to an integer. -/
def ofInt (n : Int) : Double := ofDyadic false (.ofInt n)

/-- The number with the other sign. -/
def neg : Double → Double
  | finite negative m e => finite (!negative) m e
  | infinite negative => infinite (!negative)
  | undefined => undefined

/-- The sum of two numbers.  A sum of zero is positive, unless both zeros that are added
are negative. -/
def add : Double → Double → Double
  | undefined, _ | _, undefined => undefined
  | infinite a, infinite b => if a = b then infinite a else undefined
  | infinite a, finite _ _ _ => infinite a
  | finite _ _ _, infinite b => infinite b
  | x@(finite a m _), y@(finite b n _) =>
      ofDyadic (a && b && m == 0 && n == 0) (x.value?.getD 0 + y.value?.getD 0)

/-- The difference of two numbers. -/
def sub (x y : Double) : Double := x.add y.neg

/-- The number of whole steps in a number, none if it is negative; an infinity and what
is undefined have no such number. -/
def wholes? : Double → Option Nat
  | finite true _ _ => some 0
  | finite false m e => some (m <<< e.toNat >>> (-e).toNat)
  | infinite _ | undefined => none

end Double

end Combinatory
