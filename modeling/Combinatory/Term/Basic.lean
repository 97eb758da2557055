import Combinatory.Text.Blank

/-!
# Terms

A term of combinatory logic is a primitive combinator, a free variable, or the
application of one term to another.  The three primitives own their letters, and a
variable's name is kept apart from them and from the marks that terms are written
with, so that a written term can be read in one way only.

## Main definitions

* `Primitive`: `S`, `K` and `I`, with their letters.
* `NameDefect`: what can be wrong with a variable's name.
* `VarName`: a name without defect.
* `Term`: the terms.
-/

namespace Combinatory

/-- The primitive combinators. -/
inductive Primitive
  | S
  | K
  | I
deriving DecidableEq, Repr

namespace Primitive

/-- The letter of a primitive. -/
def letter : Primitive → String
  | S => "S"
  | K => "K"
  | I => "I"

/-- The primitive that a text is the letter of. -/
def ofLetter? (s : String) : Option Primitive :=
  if s = "S" then some S else if s = "K" then some K else if s = "I" then some I else none

@[simp] theorem ofLetter?_letter (p : Primitive) : ofLetter? p.letter = some p := by
  cases p <;> decide

/-- Reading a letter accepts exactly what writing one gives. -/
theorem ofLetter?_eq_some_iff {s : String} {p : Primitive} :
    ofLetter? s = some p ↔ s = p.letter := by
  constructor
  · intro h
    unfold ofLetter? at h
    split at h
    · cases h; assumption
    split at h
    · cases h; assumption
    split at h
    · cases h; assumption
    · cases h
  · rintro rfl
    exact ofLetter?_letter p

end Primitive

/-- What can be wrong with the name of a variable. -/
inductive NameDefect
  /-- There is no character. -/
  | empty
  /-- The name is the letter of a primitive. -/
  | reserved
  /-- A character is blank or one of the marks that terms are written with. -/
  | delimited
deriving DecidableEq, Repr

namespace NameDefect

/-- The marks that terms and their signatures are written with. -/
def marks : List Char := ['(', ')', ',', '$']

/-- Whether a character may not stand in a name. -/
def isDelimiter (c : Char) : Bool := marks.contains c || Text.isBlank c

/-- The first defect of a name, in the order of the constructors. -/
def find? (name : String) : Option NameDefect :=
  if name = "" then some empty
  else if (Primitive.ofLetter? name).isSome then some reserved
  else if name.toList.any isDelimiter then some delimited
  else none

/-- A name has no defect when it has a character, is not the letter of a primitive,
and no character of it is a delimiter. -/
theorem find?_eq_none_iff {name : String} :
    find? name = none ↔
      name ≠ "" ∧ Primitive.ofLetter? name = none ∧
        ∀ c ∈ name.toList, isDelimiter c = false := by
  unfold find?
  split
  · simp_all
  split
  · simp_all [Option.isSome_iff_ne_none]
  split
  · simp_all
  · simp_all

end NameDefect

/-- The name of a variable: a text without defect. -/
structure VarName where
  text : String
  sound : NameDefect.find? text = none
deriving DecidableEq

/-- Terms: primitives, variables, and applications of one term to another. -/
inductive Term
  | prim (p : Primitive)
  | var (x : VarName)
  | app (left right : Term)
deriving DecidableEq

namespace Term

/-- The combinator that distributes its third argument over the first two. -/
abbrev S : Term := prim .S

/-- The combinator that keeps the first of two arguments. -/
abbrev K : Term := prim .K

/-- The combinator that gives its argument back. -/
abbrev I : Term := prim .I

/-- Whether a term is a leaf. -/
def isAtom : Term → Bool
  | app _ _ => false
  | _ => true

/-- The number of leaves and application nodes. -/
def size : Term → Nat
  | app l r => l.size + r.size + 1
  | _ => 1

@[simp] theorem isAtom_prim (p : Primitive) : (prim p).isAtom = true := rfl
@[simp] theorem isAtom_var (x : VarName) : (var x).isAtom = true := rfl
@[simp] theorem isAtom_app (l r : Term) : (app l r).isAtom = false := rfl

/-- No term is without nodes. -/
theorem size_pos (t : Term) : 0 < t.size := by
  cases t <;> simp [size]

/-- What is not an atom is an application. -/
theorem exists_app_of_isAtom_eq_false {t : Term} (h : t.isAtom = false) :
    ∃ l r, t = app l r := by
  cases t with
  | app l r => exact ⟨l, r, rfl⟩
  | prim p => simp at h
  | var x => simp at h

end Term

end Combinatory
