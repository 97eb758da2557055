import Combinatory.Fault

/-!
# Forming terms

Terms are made from data that need not fit.  Each function here checks what it is
offered and names the first thing that is wrong with it; what it returns is a term,
so nothing later has to check again.

## Main definitions

* `Primitive.ofDatum`: the primitive that a tag or a letter stands for.
* `Term.ofPrimitive`, `Term.ofName`: the two kinds of leaf.
* `Term.ofParts`: an application.
* `Term.applyTimes`, `Term.iterate`: long spines, on the left and on the right.
* `Datum.toTerm`: the term that a datum has to be.
-/

namespace Combinatory

namespace Primitive

/-- The primitive that a datum is the tag or the letter of, if it is one. -/
def ofDatum? (d : Datum) : Option Primitive := d.letters?.bind ofLetter?

/-- The primitive that a datum is the tag or the letter of. -/
def ofDatum (d : Datum) : Except Fault Primitive :=
  match ofDatum? d with
  | some p => .ok p
  | none => .error (.notATag d)

end Primitive

namespace Term

/-- A primitive from its tag or its letter. -/
def ofPrimitive (d : Datum) : Except Fault Term :=
  match Primitive.ofDatum? d with
  | some p => .ok (prim p)
  | none => .error (.notAPrimitive d)

/-- A variable from its name, which is a text without defect. -/
def ofName (d : Datum) : Except Fault Term :=
  match d.letters? with
  | none => .error (.nameNotText d)
  | some name =>
    match h : NameDefect.find? name with
    | some defect => .error (.badName d defect)
    | none => .ok (var ⟨name, h⟩)

/-- A leaf from its text: the letter of a primitive, or else the name of a variable. -/
def ofAtom (s : String) : Except Fault Term :=
  match Primitive.ofLetter? s with
  | some p => .ok (prim p)
  | none => ofName (.text s)

end Term

namespace Datum

/-- The term that is to stand on one side of an application. -/
def toSide (side : Side) : Datum → Except Fault Term
  | term t => .ok t
  | d => .error (.notATerm side d)

/-- The term that an operation is asked of. -/
def toTerm (operation : String) : Datum → Except Fault Term
  | term t => .ok t
  | d => .error (.noOperation d operation)

end Datum

namespace Term

/-- An application from its two parts, of which the left one is checked first. -/
def ofParts (left right : Datum) : Except Fault Term := do
  let l ← left.toSide .left
  let r ← right.toSide .right
  return app l r

/-- What comes of applying `head` to the same argument `count` times. -/
def applyTimes (head argument : Datum) : Nat → Except Fault Datum
  | 0 => .ok head
  | count + 1 => do
    let t ← ofParts head argument
    applyTimes (.term t) argument count

/-- What comes of applying the same `function` to `start`, to the result, and so on,
`count` times. -/
def iterate (function start : Datum) : Nat → Except Fault Datum
  | 0 => .ok start
  | count + 1 => do
    let t ← ofParts function start
    iterate function (.term t) count

/-- Terms are always accepted as parts. -/
@[simp] theorem ofParts_term (l r : Term) : ofParts (.term l) (.term r) = .ok (app l r) := rfl

/-- A name that no defect rules out is accepted. -/
theorem ofName_text (x : VarName) : ofName (.text x.text) = .ok (var x) := by
  unfold ofName
  simp only [Datum.letters?]
  split
  · rename_i h
    rw [x.sound] at h
    cases h
  · rfl

end Term

end Combinatory
