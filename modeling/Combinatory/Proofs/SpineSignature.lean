import Combinatory.Proofs.Matching
import Combinatory.Proofs.Reference

/-!
# Signatures of spines

The signature of an application, read off its left spine.  If the depth is enough for the whole
spine, the head is written out and each argument has a placeholder.  If it is not, the first
placeholder stands for the head with all the arguments that are too deep, and each of the others
for one of the last arguments.  The placeholders are numbered from one in the order of the text,
and are bound in that order.

## Main definitions

* `Signature.opening`, `Signature.closing`: the two parts of the text, before and behind what is
  written at the head.

## Main results

* `Term.unfold_of_le`, `Term.unfold_of_lt`: the unfolded term, with enough depth and without.
* `Signature.extract_spine`: the signature of an application in closed form.
-/

namespace Combinatory

namespace Signature

/-- A number of opening brackets. -/
def opening (count : Nat) : String := String.ofList (List.replicate count '(')

/-- So many placeholders, numbered from `first` on, each between a comma and a closing bracket. -/
def closing (first count : Nat) : String :=
  String.join ((List.range' first count).map fun number => ", " ++ placeholder number ++ ")")

@[simp] theorem opening_zero : opening 0 = "" := rfl

theorem opening_succ (count : Nat) : opening (count + 1) = "(" ++ opening count := by
  rw [← String.toList_inj]
  simp [opening, List.replicate_succ]

@[simp] theorem closing_zero (first : Nat) : closing first 0 = "" := rfl

/-- The last placeholder stands at the end. -/
theorem closing_succ (first count : Nat) :
    closing first (count + 1) =
      closing first count ++ ", " ++ placeholder (first + count) ++ ")" := by
  simp [closing, List.range'_1_concat, String.join_append, String.append_assoc]

/-- Bindings are numbered from one. -/
theorem ofBindings_eq_zip (text : String) (args : List Term) :
    ofBindings text args = ⟨text, (List.range' 1 args.length).zip args⟩ := by
  have hbound : (args.mapIdx fun i t => (i + 1, t)) = (List.range' 1 args.length).zip args := by
    refine List.ext_getElem (by simp) fun i h₁ h₂ => ?_
    simp [Nat.add_comm]
  rw [ofBindings, hbound]

end Signature

open Signature

namespace Term

variable {t : Term} {k : Nat}

/-- **With enough depth the whole spine is unfolded**: the head is written out, and each argument
has a hole. -/
theorem unfold_of_le (h : t.arguments.length ≤ k) :
    (t.unfold k).2 = t.arguments ∧
      (t.unfold k).1.text =
        opening t.arguments.length ++ t.head.script ++ closing 1 t.arguments.length := by
  induction t generalizing k with
  | prim p => cases k <;> simp [unfold, arguments, head, Pattern.text]
  | var x => cases k <;> simp [unfold, arguments, head, Pattern.text]
  | app l r ihl ihr =>
      rw [length_arguments_app] at h ⊢
      obtain ⟨k, rfl⟩ : ∃ m, k = m + 1 := ⟨k - 1, by omega⟩
      obtain ⟨hargs, htext⟩ := ihl (k := k) (by omega)
      refine ⟨by simp [unfold, arguments, hargs], ?_⟩
      rw [opening_succ, closing_succ, Nat.add_comm 1]
      simp only [unfold, Pattern.text, htext, hargs, head, String.append_assoc]

/-- **With too little depth the spine is unfolded from its end**: the first hole is for the head
with the arguments that are too deep, the others are for the last arguments. -/
theorem unfold_of_lt (h : k < t.arguments.length) :
    (t.unfold k).2 = t.head.applyAll (t.arguments.take (t.arguments.length - k)) ::
        t.arguments.drop (t.arguments.length - k) ∧
      (t.unfold k).1.text = opening k ++ placeholder 1 ++ closing 2 k := by
  induction t generalizing k with
  | prim p => cases h
  | var x => cases h
  | app l r ihl ihr =>
      cases k with
      | zero =>
          refine ⟨?_, by simp [unfold, Pattern.text]⟩
          simp [unfold, applyAll_head_arguments]
      | succ k =>
          rw [length_arguments_app] at h ⊢
          obtain ⟨hargs, htext⟩ := ihl (k := k) (by omega)
          have hdeep : l.arguments.length - k ≤ l.arguments.length := Nat.sub_le _ _
          have hcount : (l.unfold k).2.length + 1 = 2 + k := by
            rw [hargs, List.length_cons, List.length_drop]
            omega
          constructor
          · rw [Nat.add_sub_add_right]
            simp only [unfold, hargs, arguments, head, List.take_append_of_le_length hdeep,
              List.drop_append_of_le_length hdeep, List.cons_append]
          · rw [opening_succ, closing_succ]
            simp only [unfold, Pattern.text, htext, hcount, String.append_assoc]

end Term

namespace Signature

open Term

/-- **The signature of an application in closed form.**  The text begins with the opening
brackets.  If the depth is enough, the head and a placeholder for each argument follow; else
there is a placeholder for the head with the arguments that are too deep, and one for each of
the last.  The placeholders are numbered from one, and bound in this order. -/
theorem extract_spine (l r : Term) (d : Nat) :
    let t := app l r
    let n := t.arguments.length
    (n ≤ d + 1 → extract t d = .ok
      ⟨opening n ++ t.head.script ++ closing 1 n, (List.range' 1 n).zip t.arguments⟩) ∧
    (d + 1 < n → extract t d = .ok
      ⟨opening (d + 1) ++ placeholder 1 ++ closing 2 (d + 1),
        (List.range' 1 (d + 2)).zip (t.head.applyAll (t.arguments.take (n - (d + 1))) ::
          t.arguments.drop (n - (d + 1)))⟩) := by
  intro t n
  constructor
  · intro h
    obtain ⟨hargs, htext⟩ := unfold_of_le h
    rw [extract_app, ofBindings_eq_zip, htext, hargs]
  · intro h
    obtain ⟨hargs, htext⟩ := unfold_of_lt h
    have hcount : (t.arguments.drop (n - (d + 1))).length + 1 = d + 2 := by
      rw [List.length_drop]
      omega
    rw [extract_app, ofBindings_eq_zip, htext, hargs, List.length_cons, hcount]

/-- `S x y` at a depth that is enough for it, and `S x y z` at the same depth, where `S x` is
too deep. -/
theorem extract_spine_of_depth_one :
    let x := var ⟨"x", rfl⟩
    let t := app (app S x) I
    (t.arguments.length ≤ 1 + 1 ∧ extract t 1 = .ok ⟨"((S, $1), $2)", [(1, x), (2, I)]⟩) ∧
      (1 + 1 < (app t K).arguments.length ∧
        extract (app t K) 1 = .ok ⟨"(($1, $2), $3)", [(1, app S x), (2, I), (3, K)]⟩) := by
  intro x t
  obtain ⟨henough, -⟩ := extract_spine (app S x) I 1
  obtain ⟨-, hdeep⟩ := extract_spine t K 1
  have hhead : (app (app S x) I).head.script = "S" := script_prim .S
  refine ⟨⟨by decide, (henough (by decide)).trans ?_⟩, by decide, hdeep (by decide)⟩
  rw [hhead]
  rfl

end Signature

end Combinatory
