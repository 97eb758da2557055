/-!
# Classes of characters

A class of characters is given by the ranges of code points that make it up.
Every class this library needs is finite data of a standard, so membership is a
scan of a list: it evaluates by computation, which a proof about one character
can use.

## Main definitions

* `CodeRange`: the code points between two bounds.
* `CodeRange.anyContains`: whether one of a list of ranges holds a character.
-/

namespace Combinatory.Text

/-- The code points from `first` to `last`, both included. -/
structure CodeRange where
  first : Nat
  last : Nat
deriving DecidableEq, Repr

namespace CodeRange

/-- Whether the range holds the code point of `c`. -/
def contains (r : CodeRange) (c : Char) : Bool :=
  decide (r.first ≤ c.toNat) && decide (c.toNat ≤ r.last)

/-- Whether one of the ranges holds the code point of `c`. -/
def anyContains (rs : List CodeRange) (c : Char) : Bool :=
  rs.any (·.contains c)

@[simp] theorem contains_iff (r : CodeRange) (c : Char) :
    r.contains c = true ↔ r.first ≤ c.toNat ∧ c.toNat ≤ r.last := by
  simp [contains]

@[simp] theorem anyContains_iff (rs : List CodeRange) (c : Char) :
    anyContains rs c = true ↔ ∃ r ∈ rs, r.first ≤ c.toNat ∧ c.toNat ≤ r.last := by
  simp [anyContains]

end CodeRange

end Combinatory.Text
