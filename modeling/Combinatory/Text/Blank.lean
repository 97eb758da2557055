import Combinatory.Text.Ranges

/-!
# Blank characters

The characters that separate words and print nothing: the white-space controls,
the four information separators, and every space, line and paragraph separator
of Unicode.  A name may hold none of them, and a setting is read without those
around it.

## Main definitions

* `isBlank`: the class.
* `strip`: a text without the blanks at its two ends.
-/

namespace Combinatory.Text

/-- The ranges of the blank characters, in increasing order. -/
def blanks : List CodeRange :=
  [⟨0x09, 0x0D⟩, ⟨0x1C, 0x20⟩, ⟨0x85, 0x85⟩, ⟨0xA0, 0xA0⟩, ⟨0x1680, 0x1680⟩,
   ⟨0x2000, 0x200A⟩, ⟨0x2028, 0x2029⟩, ⟨0x202F, 0x202F⟩, ⟨0x205F, 0x205F⟩,
   ⟨0x3000, 0x3000⟩]

/-- Whether a character is blank. -/
def isBlank (c : Char) : Bool := CodeRange.anyContains blanks c

/-- The characters of a list without the blanks at its two ends. -/
def stripList (cs : List Char) : List Char :=
  ((cs.dropWhile isBlank).reverse.dropWhile isBlank).reverse

/-- A text without the blanks at its two ends; those inside stay. -/
def strip (s : String) : String := String.ofList (stripList s.toList)

/-- The white space of the core library is blank. -/
theorem isBlank_of_isWhitespace {c : Char} (h : c.isWhitespace = true) : isBlank c = true := by
  simp only [Char.isWhitespace, Bool.or_eq_true, decide_eq_true_eq] at h
  rcases h with ((rfl | rfl) | rfl) | rfl <;> decide

end Combinatory.Text
