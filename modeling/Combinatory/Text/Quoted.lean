import Combinatory.Text.Unprintable

/-!
# Quoted text

A message shows a text between quotation marks, so that its ends and its invisible
characters can be seen.  The marks are apostrophes, unless the text holds an
apostrophe and no double quote: then they are double quotes and nothing in the
text has to be escaped for their sake.

## Main definitions

* `quotationMark`: the mark that a text is put between.
* `escapeChar`: a character as it stands between the marks.
* `quoted`: the text between its marks.
-/

namespace Combinatory.Text

/-- The apostrophe, the usual quotation mark. -/
def apostrophe : Char := '\x27'

/-- The double quote, the other quotation mark. -/
def doubleQuote : Char := '\x22'

/-- The character that starts an escape. -/
def backslash : Char := '\x5c'

/-- The mark that a text is put between. -/
def quotationMark (s : String) : Char :=
  if s.toList.contains apostrophe && !s.toList.contains doubleQuote then doubleQuote
  else apostrophe

/-- The last `width` hexadecimal digits of a number, in small letters; a shorter
number has zeros in front. -/
def hexDigits (width n : Nat) : List Char :=
  (List.range width).reverse.map fun place => Nat.digitChar (n / Nat.pow 16 place % 16)

/-- The escape of a character by its code point, in the shortest of the three
widths that hold it. -/
def codeEscape (c : Char) : List Char :=
  if c.toNat < 0x100 then backslash :: 'x' :: hexDigits 2 c.toNat
  else if c.toNat < 0x10000 then backslash :: 'u' :: hexDigits 4 c.toNat
  else backslash :: 'U' :: hexDigits 8 c.toNat

/-- A character as it stands between two marks: the mark itself and the backslash
are escaped, three controls have a letter, and what cannot be seen has its code. -/
def escapeChar (mark c : Char) : List Char :=
  if c = mark ∨ c = backslash then [backslash, c]
  else if c = '\n' then [backslash, 'n']
  else if c = '\r' then [backslash, 'r']
  else if c = '\t' then [backslash, 't']
  else if isUnprintable c then codeEscape c
  else [c]

/-- A text between its marks. -/
def quoted (s : String) : String :=
  let mark := quotationMark s
  String.ofList (mark :: s.toList.flatMap (escapeChar mark) ++ [mark])

/-- The number of digits is the width asked for. -/
@[simp] theorem length_hexDigits (width n : Nat) : (hexDigits width n).length = width := by
  simp [hexDigits]

/-- No mark stands alone inside a quoted text: its escape starts with a backslash. -/
@[simp] theorem escapeChar_mark (mark : Char) : escapeChar mark mark = [backslash, mark] := by
  simp [escapeChar]

end Combinatory.Text
