import Combinatory.Number
import Combinatory.Text.DecimalDigit

/-!
# Numerals

A numeral is a row of digits, with a sign in front or not.  It stands for an integer,
unless it has digits behind a point or a power of ten: then it stands for the
double-precision number nearest to it.  Three words stand for the numbers that no digits
can write.

## Main definitions

* `Number.ofNumeral?`: the number that a numeral stands for.
-/

namespace Combinatory

namespace Number

/-- The value of a list of ordinary digits, the most significant first. -/
def natOfDigits (ds : List Char) : Nat := Text.ofDigits (ds.map fun c => c.toNat - '0'.toNat)

/-- The power of ten that stands at the end of a numeral: a mark, a sign or none, and
digits. -/
def power? : List Char → Option Int
  | mark :: rest =>
      if mark = 'e' ∨ mark = 'E' then
        let (negative, ds) := match rest with
          | '-' :: ds => (true, ds)
          | '+' :: ds => (false, ds)
          | ds => (false, ds)
        if ds.isEmpty || !ds.all Char.isDigit then none
        else some (if negative then -(natOfDigits ds : Int) else natOfDigits ds)
      else none
  | [] => none

/-- The number that a numeral without its sign stands for. -/
def unsigned? (negative : Bool) (cs : List Char) : Option Number :=
  let whole := cs.takeWhile Char.isDigit
  let rest := cs.dropWhile Char.isDigit
  let (fraction, rest') := match rest with
    | '.' :: tail => (tail.takeWhile Char.isDigit, tail.dropWhile Char.isDigit)
    | _ => ([], rest)
  let digits := natOfDigits (whole ++ fraction)
  if whole.isEmpty then none
  else if rest.isEmpty then some (.integer (if negative then -(digits : Int) else digits))
  else if rest'.isEmpty then some (.double (.ofScientific negative digits (-fraction.length)))
  else (power? rest').map fun power =>
    .double (.ofScientific negative digits (power - fraction.length))

/-- The number that a numeral stands for. -/
def ofNumeral? (s : String) : Option Number :=
  if s = "NaN" then some (.double .undefined)
  else if s = "Infinity" then some (.double (.infinite false))
  else if s = "-Infinity" then some (.double (.infinite true))
  else match s.toList with
    | '-' :: cs => unsigned? true cs
    | cs => unsigned? false cs

end Number

end Combinatory
