import Combinatory.Term.Script

/-!
# The loop that writes a term

A term is written by a loop over a stack of pieces.  A turn of the loop takes the piece on the
top.  A text is written, and so is the name of an atom; of an application the opening bracket
is written, and four pieces take its place on the stack, the two parts with the comma between
them and the closing bracket.  So a turn can make the stack higher, and its height does not
show that the loop ends.

What gets less with each turn is the number of turns that the pieces on the stack take, one for
a text and two for each node of a term but one.  What stays the same is the text of what is
written and of the pieces behind it.

## Main definitions

* `Term.Writing`: the loop between two turns.
* `Term.Writing.turn`: a turn of the loop.

## Main results

* `Term.Writing.writeAll_eq_turn`: the turns are those of the writing that runs.
* `Term.Writing.exists_after_turnsLeft`: from every stack the loop ends after a number of turns
  that is known, and has then written the texts of the pieces in order.
* `Term.loop_writes_script`: so a term is written, and its text is that of the recursion.
-/

namespace Combinatory.Term

/-- The loop between two turns: the texts that are written, in their order, and the stack of the
pieces that are not, the top in front. -/
structure Writing where
  done : List String
  stack : List Piece

namespace Writing

/-- A turn of the loop; with an empty stack there is none. -/
def turn : Writing → Option Writing
  | ⟨_, []⟩ => none
  | ⟨done, .text s :: rest⟩ => some ⟨done ++ [s], rest⟩
  | ⟨done, .term (prim p) :: rest⟩ => some ⟨done ++ [p.letter], rest⟩
  | ⟨done, .term (var x) :: rest⟩ => some ⟨done ++ [x.text], rest⟩
  | ⟨done, .term (app l r) :: rest⟩ =>
      some ⟨done ++ ["("], .term l :: .text ", " :: .term r :: .text ")" :: rest⟩

/-- The loop after a number of turns, if it has as many. -/
def after : Nat → Writing → Option Writing
  | 0, w => some w
  | n + 1, w => w.turn.bind (after n)

/-- The text of what is written and of the pieces behind it. -/
def text (w : Writing) : String :=
  String.join w.done ++ String.join (w.stack.map Piece.render)

/-- The number of turns that a piece takes. -/
def turnsOf : Piece → Nat
  | .text _ => 1
  | .term t => 2 * t.size - 1

/-- The number of turns that the pieces of a stack take. -/
def turnsOfAll : List Piece → Nat
  | [] => 0
  | piece :: rest => turnsOf piece + turnsOfAll rest

/-- The number of turns until the stack is empty. -/
def turnsLeft (w : Writing) : Nat := turnsOfAll w.stack

variable {w w' : Writing}

/-- Every piece takes a turn. -/
theorem turnsOf_pos (piece : Piece) : 0 < turnsOf piece := by
  cases piece with
  | text s => exact Nat.one_pos
  | term t =>
      have hsize := t.size_pos
      simp only [turnsOf]
      omega

/-- Turns are left as long as there is a piece on the stack. -/
theorem turnsLeft_eq_zero_iff : w.turnsLeft = 0 ↔ w.stack = [] := by
  obtain ⟨done, stack⟩ := w
  cases stack with
  | nil => simp [turnsLeft, turnsOfAll]
  | cons piece rest =>
      have hpos := turnsOf_pos piece
      simp only [turnsLeft, turnsOfAll, reduceCtorEq, iff_false]
      omega

/-- The loop goes on as long as there is a piece on the stack. -/
theorem turn_eq_none_iff : w.turn = none ↔ w.stack = [] := by
  fun_cases turn w <;> simp

/-- **After a turn there is one turn less.** -/
theorem turnsLeft_turn (h : w.turn = some w') : w'.turnsLeft + 1 = w.turnsLeft := by
  revert h
  fun_cases turn w with
  | case1 => simp
  | case2 done s rest =>
      rintro ⟨⟩
      simp only [turnsLeft, turnsOfAll, turnsOf]
      omega
  | case3 | case4 =>
      rintro ⟨⟩
      simp only [turnsLeft, turnsOfAll, turnsOf, size]
      omega
  | case5 done l r rest =>
      rintro ⟨⟩
      have hl := l.size_pos
      have hr := r.size_pos
      simp only [turnsLeft, turnsOfAll, turnsOf, size]
      omega

/-- **A turn leaves the text as it is.** -/
theorem text_turn (h : w.turn = some w') : w'.text = w.text := by
  revert h
  fun_cases turn w with
  | case1 => simp
  | case2 | case3 | case4 | case5 =>
      rintro ⟨⟩
      simp [text, Piece.render, Term.render, String.append_assoc]

/-- **The turns are those of the writing that runs.** -/
theorem writeAll_eq_turn (w : Writing) :
    writeAll (String.join w.done) w.stack =
      match w.turn with
      | none => String.join w.done
      | some w' => writeAll (String.join w'.done) w'.stack := by
  fun_cases turn w <;> simp [writeAll]

/-- **The loop ends**, from every stack, when all turns are taken.  What is written then is the
text of the pieces, and it is what the writing that runs returns. -/
theorem exists_after_turnsLeft (w : Writing) :
    ∃ done, after w.turnsLeft w = some ⟨done, []⟩ ∧ String.join done = w.text ∧
      writeAll (String.join w.done) w.stack = String.join done := by
  -- The stack may grow in a turn, so the induction is on the turns that are left.
  induction hn : w.turnsLeft generalizing w with
  | zero =>
      obtain ⟨done, stack⟩ := w
      obtain rfl : stack = [] := turnsLeft_eq_zero_iff.1 hn
      exact ⟨done, rfl, by simp [text], by simp [writeAll]⟩
  | succ n ih =>
      obtain ⟨w', hturn⟩ : ∃ w', w.turn = some w' := by
        refine Option.ne_none_iff_exists'.1 fun hnone => ?_
        rw [turn_eq_none_iff, ← turnsLeft_eq_zero_iff, hn] at hnone
        cases hnone
      have hleft : w'.turnsLeft = n := by
        have hless := turnsLeft_turn hturn
        omega
      obtain ⟨done, hafter, htext, hwrite⟩ := ih w' hleft
      refine ⟨done, ?_, htext.trans (text_turn hturn), ?_⟩
      · rw [after, hturn, Option.bind_some, hafter]
      · rw [writeAll_eq_turn, hturn]
        exact hwrite

end Writing

/-- **A term is written by a loop that ends**, after two turns for each node of the term but
one.  What it returns is the text that the recursion gives: a letter or a name for an atom, and
for an application the texts of its two parts, with a comma between them, in brackets. -/
theorem loop_writes_script (t : Term) :
    (∃ done, Writing.after (2 * t.size - 1) ⟨[], [.term t]⟩ = some ⟨done, []⟩ ∧
      String.join done = t.script) ∧
    t.script = t.render ∧
    match t with
    | prim p => t.script = p.letter
    | var x => t.script = x.text
    | app l r => t.script = "(" ++ l.script ++ ", " ++ r.script ++ ")" := by
  obtain ⟨done, hafter, htext, hwrite⟩ := Writing.exists_after_turnsLeft ⟨[], [.term t]⟩
  have hleft : Writing.turnsLeft ⟨[], [.term t]⟩ = 2 * t.size - 1 := rfl
  have hscript : String.join done = t.script := hwrite.symm
  have hrender : t.script = t.render := by
    rw [← hscript, htext]
    simp [Writing.text, Piece.render]
  refine ⟨⟨done, hleft ▸ hafter, hscript⟩, hrender, ?_⟩
  cases t with
  | prim p => exact script_prim p
  | var x => exact script_var x
  | app l r => exact script_app l r

end Combinatory.Term
