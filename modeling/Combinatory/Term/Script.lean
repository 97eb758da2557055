import Combinatory.Term.Basic

/-!
# Written terms

An atom is written as its name, an application as its two parts between brackets
with a comma after the first.  `render` says so by recursion on the term.  `script`
writes the same text from left to right with a stack of what is still to come, so
that a term of any depth needs no nested call; it is the one that runs, and
`script_eq_render` lets every proof use the other.

## Main definitions

* `Term.render`: the text of a term, by recursion.
* `Term.script`: the text of a term, from a stack.

## Main results

* `Term.script_eq_render`: the two agree.
-/

namespace Combinatory

namespace Term

/-- The text of a term: a name, or two texts between brackets. -/
def render : Term → String
  | prim p => p.letter
  | var x => x.text
  | app l r => "(" ++ l.render ++ ", " ++ r.render ++ ")"

/-- A piece of a text that is still to be written. -/
inductive Piece
  | text (s : String)
  | term (t : Term)

namespace Piece

/-- The number of steps that writing a piece takes. -/
def weight : Piece → Nat
  | text _ => 1
  | term t => 3 * t.size

/-- The number of steps that writing a stack of pieces takes. -/
def weightAll : List Piece → Nat
  | [] => 0
  | piece :: rest => piece.weight + weightAll rest

/-- The text that a piece stands for. -/
def render : Piece → String
  | text s => s
  | term t => t.render

end Piece

/-- Write the pieces of a stack, the top first, behind what is already written.  An
application makes way for its brackets, its comma and its two parts. -/
def writeAll (out : String) : List Piece → String
  | [] => out
  | .text s :: rest => writeAll (out ++ s) rest
  | .term (prim p) :: rest => writeAll (out ++ p.letter) rest
  | .term (var x) :: rest => writeAll (out ++ x.text) rest
  | .term (app l r) :: rest =>
      writeAll (out ++ "(") (.term l :: .text ", " :: .term r :: .text ")" :: rest)
termination_by pieces => Piece.weightAll pieces
decreasing_by
  all_goals simp only [Piece.weightAll, Piece.weight, size]
  all_goals omega

/-- The text of a term. -/
def script (t : Term) : String := writeAll "" [.term t]

/-- Every piece of the stack is written, in order and once. -/
theorem writeAll_eq_append_join (out : String) (pieces : List Piece) :
    writeAll out pieces = out ++ String.join (pieces.map Piece.render) := by
  fun_induction writeAll out pieces with
  | case1 => simp
  | case2 out s rest ih => simp [ih, Piece.render, String.append_assoc]
  | case3 out p rest ih => simp [ih, Piece.render, Term.render, String.append_assoc]
  | case4 out x rest ih => simp [ih, Piece.render, Term.render, String.append_assoc]
  | case5 out l r rest ih => simp [ih, Piece.render, Term.render, String.append_assoc]

/-- The stack writes what the recursion says. -/
theorem script_eq_render (t : Term) : t.script = t.render := by
  simp [script, writeAll_eq_append_join, Piece.render]

@[simp] theorem script_prim (p : Primitive) : (prim p).script = p.letter := by
  rw [script_eq_render, render]

@[simp] theorem script_var (x : VarName) : (var x).script = x.text := by
  rw [script_eq_render, render]

@[simp] theorem script_app (l r : Term) :
    (app l r).script = "(" ++ l.script ++ ", " ++ r.script ++ ")" := by
  simp only [script_eq_render, render]

end Term

end Combinatory
