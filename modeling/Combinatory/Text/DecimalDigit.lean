/-!
# Decimal digits of every script

A decimal digit is one of ten characters in a row that stand for zero to nine.
Unicode has such a row for each of many scripts, and a numeral may mix them: what
counts is the value of each digit and its place.

## Main definitions

* `digit?`: the value of a decimal digit.
* `numeral?`: the value of a text that holds digits only.
* `longestNumeral`, `numeralBound`: the number of digits up to which a numeral is read or
  written, and the least number that has more.
-/

namespace Combinatory.Text

/-- The zeros of the rows of decimal digits, in increasing order; the row of each
is the ten code points that start there. -/
def digitZeros : List Nat :=
  [0x30, 0x660, 0x6F0, 0x7C0, 0x966, 0x9E6, 0xA66, 0xAE6, 0xB66, 0xBE6, 0xC66, 0xCE6,
   0xD66, 0xDE6, 0xE50, 0xED0, 0xF20, 0x1040, 0x1090, 0x17E0, 0x1810, 0x1946, 0x19D0,
   0x1A80, 0x1A90, 0x1B50, 0x1BB0, 0x1C40, 0x1C50, 0xA620, 0xA8D0, 0xA900, 0xA9D0,
   0xA9F0, 0xAA50, 0xABF0, 0xFF10, 0x104A0, 0x10D30, 0x11066, 0x110F0, 0x11136, 0x111D0,
   0x112F0, 0x11450, 0x114D0, 0x11650, 0x116C0, 0x11730, 0x118E0, 0x11950, 0x11C50,
   0x11D50, 0x11DA0, 0x16A60, 0x16AC0, 0x16B50, 0x1D7CE, 0x1D7D8, 0x1D7E2, 0x1D7EC,
   0x1D7F6, 0x1E140, 0x1E2F0, 0x1E950, 0x1FBF0]

/-- The value of a decimal digit: its distance from the zero of its row. -/
def digit? (c : Char) : Option Nat :=
  (digitZeros.find? fun z => decide (z ≤ c.toNat) && decide (c.toNat < z + 10)).map
    (c.toNat - ·)

/-- One more digit at the end of a numeral. -/
def appendDigit (value digit : Nat) : Nat := 10 * value + digit

/-- The base-ten value of a list of digits, the most significant first. -/
def ofDigits (ds : List Nat) : Nat := ds.foldl appendDigit 0

/-- The value of a text that holds decimal digits only, and at least one. -/
def numeral? (s : String) : Option Nat :=
  if s.isEmpty then none else (s.toList.mapM digit?).map ofDigits

/-- The longest numeral that is read or written, in digits; where it is read, zeros in
front count. -/
def longestNumeral : Nat := 4300

/-- The least number that is too long to be written. -/
def numeralBound : Nat := Nat.pow 10 longestNumeral

/-- A digit is worth less than ten. -/
theorem digit?_lt_ten {c : Char} {d : Nat} (h : digit? c = some d) : d < 10 := by
  obtain ⟨z, hz, rfl⟩ := Option.map_eq_some_iff.1 h
  have := List.find?_some hz
  simp only [Bool.and_eq_true, decide_eq_true_eq] at this
  omega

end Combinatory.Text
