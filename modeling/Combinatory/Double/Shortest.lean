import Combinatory.Double.Basic

/-!
# The shortest text of a double-precision number

Every double-precision number is the nearest one to an interval of reals, and its text
is the decimal of that interval with the fewest digits; of several, the nearest to the
number.  It is written positionally near one, where it keeps a point, and
scientifically elsewhere.

The digits are looked for on one decimal grid after another, from the coarsest.  On
each only the two neighbours of the number have to be tried, since a grid that meets
the interval at all meets it in one of them.

## Main definitions

* `Double.onGrid?`: the decimal of a grid that reads back as a number.
* `Double.shortest`: the fewest digits that read back.
* `Double.render`: the text.
-/

namespace Combinatory

namespace Double

/-- The digits of a natural number, the most significant first. -/
def decimalDigits (n : Nat) : List Char := Nat.toDigits 10 n

/-- The power of ten of the first digit of `m * 2 ^ e`, which is not zero. -/
def leadingPower (m : Nat) (e : Int) : Int :=
  let n := m <<< e.toNat
  let d := 1 <<< (-e).toNat
  if d ≤ n then (decimalDigits (n / d)).length - 1
  else
    let places := (List.range 400).find? fun j => decide (d ≤ n * Nat.pow 10 j)
    Int.negOfNat (places.getD 400)

/-- The multiple of `10 ^ k` that is nearest to `m * 2 ^ e` and reads back as it, by its
number of steps.  The interval that reads back ends half way to the neighbours, of which
the lower one is half as far away below a power of two; its ends belong to it if `m` is
even.  All is counted in quarters of the last bit, over a common denominator. -/
def onGrid? (m : Nat) (e k : Int) : Option Nat :=
  let quarter := Nat.pow 10 (-k).toNat <<< (e - 2).toNat
  let step := Nat.pow 10 k.toNat <<< (2 - e).toNat
  let exact := 4 * m * quarter
  let gapBelow := if m = fullSignificand ∧ leastExponent < e then 1 else 2
  let low := (4 * m - gapBelow) * quarter
  let high := (4 * m + 2) * quarter
  let readsBack (c : Nat) : Bool :=
    if m % 2 = 0 then decide (low ≤ c * step) && decide (c * step ≤ high)
    else decide (low < c * step) && decide (c * step < high)
  let below := exact / step
  let above := below + 1
  match readsBack below, readsBack above with
  | true, true =>
      if 2 * exact < (below + above) * step then some below
      else if (below + above) * step < 2 * exact then some above
      else if below % 2 = 0 then some below else some above
  | true, false => some below
  | false, true => some above
  | false, false => none

/-- The fewest digits that read back as `m * 2 ^ e`, with the power of ten of the last
one.  Seventeen digits always do. -/
def shortest (m : Nat) (e : Int) : Nat × Int :=
  let lead := leadingPower m e
  let found := (List.range 17).findSome? fun (places : Nat) =>
    let k := lead - (places : Int)
    (onGrid? m e k).map fun digits => (digits, k)
  found.getD (m, e)

/-- A list of digits without the zeros at its end. -/
def significant (ds : List Char) : List Char := (ds.reverse.dropWhile (· = '0')).reverse

/-- The digits on the two sides of the point, which stands after `point` digits of
`ds`; each side has at least a zero. -/
def positional (ds : List Char) (point : Int) : List Char :=
  let padded := List.replicate (-point).toNat '0' ++ ds
  let whole := padded.take point.toNat
  let fraction := padded.drop point.toNat
  (if whole.isEmpty then ['0'] else whole ++ List.replicate (point.toNat - padded.length) '0')
    ++ '.' :: (if fraction.isEmpty then ['0'] else fraction)

/-- One digit before the point, the others after it if there are any, and the power
of ten with its sign and at least two digits. -/
def scientific (ds : List Char) (exponent : Int) : List Char :=
  let magnitude := decimalDigits exponent.natAbs
  ds.take 1 ++ (if ds.length ≤ 1 then [] else '.' :: ds.drop 1)
    ++ 'e' :: (if exponent < 0 then '-' else '+')
    :: (List.replicate (2 - magnitude.length) '0' ++ magnitude)

/-- The text of `m * 2 ^ e`.  The power of ten of the first digit decides the form: from
`-4` to `15` the number is written positionally, beyond that scientifically. -/
def magnitudeText (m : Nat) (e : Int) : List Char :=
  if m = 0 then positional [] 0
  else
    let (digits, power) := shortest m e
    let ds := decimalDigits digits
    let exponent : Int := power + ds.length - 1
    if -4 ≤ exponent ∧ exponent < 16 then positional (significant ds) (exponent + 1)
    else scientific (significant ds) exponent

/-- The sign that stands before a text. -/
def signText (negative : Bool) : List Char := if negative then ['-'] else []

/-- The text of a number; zero keeps its sign. -/
def render : Double → String
  | finite negative m e => String.ofList (signText negative ++ magnitudeText m e)
  | infinite negative => String.ofList (signText negative ++ ['i', 'n', 'f'])
  | undefined => "nan"

end Double

end Combinatory
