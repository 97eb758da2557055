import Combinatory.Double.Shortest
import Combinatory.Double.Sum
import Combinatory.Text.DecimalDigit

/-!
# Numbers

What can be counted with: truth values, which count as one and zero, integers without
bound, and double-precision numbers.  Integers stay exact until they meet a double.
Comparison is exact for all kinds, and nothing is less or greater than what is undefined.

## Main definitions

* `Number`: the type.
* `Number.add`, `Number.sub`, `Number.lt`: arithmetic and order.
* `Number.render`, `Number.isWritable`: the text of a number, and whether it is made.
* `Number.Key`: what numbers of one value have in common.
-/

namespace Combinatory

/-- A truth value, an integer or a double-precision number. -/
inductive Number
  | truth (b : Bool)
  | integer (n : Int)
  | double (x : Double)
deriving DecidableEq, Repr

namespace Number

/-- The number zero. -/
def zero : Number := integer 0

/-- The number one. -/
def one : Number := integer 1

/-- The name of a number's kind. -/
def kindName : Number → String
  | truth _ => "bool"
  | integer _ => "int"
  | double _ => "float"

/-- The text of a number. -/
def render : Number → String
  | truth b => if b then "True" else "False"
  | integer n => toString n
  | double x => x.render

/-- Whether the text of a number is made: an integer may have as many digits as are read. -/
def isWritable : Number → Bool
  | integer n => decide (n.natAbs < Text.numeralBound)
  | _ => true

/-- The integer that a number is by its kind. -/
def toInt? : Number → Option Int
  | truth b => some (if b then 1 else 0)
  | integer n => some n
  | double _ => none

/-- The nearest double. -/
def toDouble : Number → Double
  | truth b => .ofInt (if b then 1 else 0)
  | integer n => .ofInt n
  | double x => x

/-- The number that a finite one is, exactly. -/
def value? : Number → Option Dyadic
  | truth b => some (.ofInt (if b then 1 else 0))
  | integer n => some (.ofInt n)
  | double x => x.value?

/-- What is left of a number where its kind does not matter.  Every value is written in one
way only. -/
inductive Key
  | finite (v : Dyadic)
  | infinite (negative : Bool)
  | undefined
deriving DecidableEq

/-- The key of a number: its value. -/
def key (x : Number) : Key :=
  match x.value?, x with
  | some v, _ => .finite v
  | none, double (.infinite negative) => .infinite negative
  | none, _ => .undefined

/-- Whether two numbers have a sum: an integer that meets a double must not be beyond
all doubles. -/
def addable (x y : Number) : Bool :=
  match x.toInt?, y.toInt? with
  | some _, some _ => true
  | some a, none => (Double.ofInt a).isFinite
  | none, some b => (Double.ofInt b).isFinite
  | none, none => true

/-- The sum of two numbers: an integer, or a double if one of them is. -/
def add (x y : Number) : Number :=
  match x.toInt?, y.toInt? with
  | some a, some b => integer (a + b)
  | _, _ => double (x.toDouble.add y.toDouble)

/-- The difference of two numbers: an integer, or a double if one of them is. -/
def sub (x y : Number) : Number :=
  match x.toInt?, y.toInt? with
  | some a, some b => integer (a - b)
  | _, _ => double (x.toDouble.sub y.toDouble)

/-- Whether one number is less than another. -/
def lt (x y : Number) : Bool :=
  match x.toInt?, y.toInt? with
  | some a, some b => decide (a < b)
  | _, _ =>
    match x.value?, y.value? with
    | some a, some b => decide (a < b)
    | some _, none => decide (y = double (.infinite false))
    | none, some _ => decide (x = double (.infinite true))
    | none, none =>
        decide (x = double (.infinite true)) && decide (y = double (.infinite false))

/-- The number of whole steps in a number, none if it is negative; an infinity and what
is undefined have no such number. -/
def wholes? : Number → Option Nat
  | double x => x.wholes?
  | truth b => some (if b then 1 else 0)
  | integer n => some n.toNat

@[simp] theorem add_integer (a b : Int) : (integer a).add (integer b) = integer (a + b) := rfl

@[simp] theorem sub_integer (a b : Int) : (integer a).sub (integer b) = integer (a - b) := rfl

@[simp] theorem lt_integer (a b : Int) : (integer a).lt (integer b) = decide (a < b) := rfl

@[simp] theorem isWritable_natCast (n : Nat) :
    (integer n).isWritable = decide (n < Text.numeralBound) := rfl

/-- A number with a value has that value for its key. -/
theorem key_eq_finite_iff {x : Number} {v : Dyadic} : x.key = .finite v ↔ x.value? = some v := by
  unfold key
  split <;> simp [*]

@[simp] theorem wholes?_integer (n : Int) : (integer n).wholes? = some n.toNat := rfl

end Number

end Combinatory
