import Combinatory.Evaluation
import Combinatory.Proofs.Readability

/-!
# Matching by text and by shape

Evaluations recognise a redex by the text of its signatures.  Here the same choice is
made by looking at the term: `Term.redex?` reads off the rule and what is bound to the
placeholders from the head of the left spine and the number of arguments behind it.
The two agree because a signature is the text of the unfolded term
(`Signature.extract_app`) and such texts can be read in one way only.

## Main definitions

* `Term.unfold`: a term whose left spine is unfolded to a depth, as a pattern with what
  is in its holes.
* `Term.redex?`: the rule that applies to a term, by its shape.
* `Term.argument`: what is bound to the placeholder of a number.

## Main results

* `Signature.extract_app`: the signature of an application at every depth.
* `Evaluation.matchRedex_app`: matching by text is matching by shape.
-/

namespace Combinatory

namespace Term

/-- The argument of a number, where numbers count from one. -/
def argument (args : List Term) (number : Nat) : Term := args.getD (number - 1) I

/-- A term whose left spine is unfolded `depth` times, and the terms in the holes of it,
from the first on. -/
def unfold : Nat → Term → Pattern × List Term
  | _, prim p => (.prim p, [])
  | _, var x => (.var x, [])
  | 0, app l r => (.hole 1, [app l r])
  | depth + 1, app l r =>
      let left := l.unfold depth
      (.app left.1 (.hole (left.2.length + 1)), left.2 ++ [r])

/-- The rule that applies to a term, with the terms for its placeholders. -/
def redex? : Term → Option (Rule × List Term)
  | app (prim .I) a => some (.identity, [a])
  | app (app (prim .I) a) b => some (.identityApplied, [a, b])
  | app (app (prim .K) a) b => some (.constant, [a, b])
  | app (app (app (prim .I) a) b) c => some (.identityAppliedTwice, [a, b, c])
  | app (app (app (prim .K) a) b) c => some (.constantApplied, [a, b, c])
  | app (app (app (prim .S) a) b) c => some (.substitution, [a, b, c])
  | app (app (app (app h a) b) c) d => some (.nestedHead, [app h a, b, c, d])
  | _ => none

end Term

namespace Signature

open Term

/-! ## Signatures as texts of patterns -/

/-- Bindings are numbered from one. -/
theorem lookup_mapIdx (args : List Term) (first n : Nat) :
    (args.mapIdx fun i t => (i + first, t)).lookup (first + n) = args[n]? := by
  induction args generalizing first n with
  | nil => rfl
  | cons t rest ih =>
      rw [List.mapIdx_cons, List.lookup_cons]
      cases n with
      | zero => simp
      | succ n =>
          have hne : (first + (n + 1) == 0 + first) = false := by
            rw [beq_eq_false_iff_ne]
            omega
          have := ih (first + 1) n
          simp only [hne, List.getElem?_cons_succ, ← this]
          simp only [Nat.add_comm, Nat.add_left_comm]

/-- The number of a placeholder is bound to the argument of that number. -/
theorem lookup_ofBindings {text : String} {args : List Term} {n : Nat} (h : 1 ≤ n)
    (hn : n ≤ args.length) : (ofBindings text args).bound.lookup n = some (argument args n) := by
  obtain ⟨m, rfl⟩ := Nat.exists_eq_add_of_le h
  have hm : m < args.length := by omega
  rw [ofBindings, lookup_mapIdx]
  simp [argument, List.getElem?_eq_getElem hm]

/-- A placeholder that is bound has the argument of its number. -/
theorem get_ofBindings {text : String} {args : List Term} {n : Nat} (h : 1 ≤ n)
    (hn : n ≤ args.length) : (ofBindings text args).get n = .ok (argument args n) := by
  rw [get, lookup_ofBindings h hn]

@[simp] theorem text_ofBindings (text : String) (args : List Term) :
    (ofBindings text args).text = text := rfl

/-- Closing binds one argument more. -/
theorem close_ofBindings (text : String) (args : List Term) (r : Term) :
    (ofBindings text args).close r =
      ofBindings (text ++ ", " ++ placeholder (args.length + 1) ++ ")") (args ++ [r]) := by
  simp [ofBindings, close, hold, write, List.mapIdx_concat]

/-- Opening the left part of an application writes the unfolded part.  What is still to
be unfolded, and the depth of the place, add up to one more than the greatest depth. -/
theorem openSpine_eq {maxdepth : Nat} (l : Term) {k depth : Nat}
    (h : depth + k = maxdepth + 1) (s : String) :
    openSpine maxdepth l depth ⟨s, []⟩ =
      ofBindings (s ++ "(" ++ (l.unfold k).1.text) (l.unfold k).2 := by
  induction l generalizing k depth s with
  | prim p => cases k <;> simp [openSpine, Term.unfold, Pattern.text, write, ofBindings]
  | var x => cases k <;> simp [openSpine, Term.unfold, Pattern.text, write, ofBindings]
  | app l r ihl =>
      cases k with
      | zero =>
          have hd : ¬ (depth : Int) ≤ maxdepth := by omega
          simp [openSpine, hd, Term.unfold, Pattern.text, write, hold, ofBindings]
      | succ k =>
          have hd : (depth : Int) ≤ maxdepth := by omega
          have hnext : depth + 1 + k = maxdepth + 1 := by omega
          have hl := ihl hnext (s ++ "(")
          simp only [openSpine, hd, if_true, write, hl, close_ofBindings, Term.unfold,
            Pattern.text]
          simp only [String.append_assoc]

/-- **The signature of an application is the text of the unfolded application**, at every
depth. -/
theorem extract_app (l r : Term) (d : Nat) :
    extract (app l r) d =
      .ok (ofBindings ((app l r).unfold (d + 1)).1.text ((app l r).unfold (d + 1)).2) := by
  have hd : ¬ (d : Int) < 0 := by omega
  have hsum : 1 + d = d + 1 := Nat.add_comm 1 d
  have hl := openSpine_eq l hsum ""
  simp only [extract, hd, if_false, empty, hl, close_ofBindings, Term.unfold, Pattern.text]
  simp only [String.empty_append, String.append_assoc]

end Signature

namespace Evaluation

open Term

/-! ## Matching -/

/-- Matching at a list of depths, by the patterns of the unfolded term. -/
def matchShape (t : Term) : List Nat → Option (Rule × List Term)
  | [] => none
  | d :: rest =>
      match (Rule.atDepth d).find? fun r => decide ((t.unfold (d + 1)).1 = r.pattern) with
      | some r => some (r, (t.unfold (d + 1)).2)
      | none => matchShape t rest

/-- A signature has the text of a template exactly when the unfolded term has its shape. -/
theorem text_eq_template_iff (P : Pattern) (r : Rule) : P.text = r.template ↔ P = r.pattern := by
  rw [← r.text_pattern]
  exact Pattern.text_injective.eq_iff

/-- The first depth of a list decides if the signature there has the text of a template. -/
theorem matchAt_cons {t : Term} {d : Nat} {σ : Signature} (rest : List Nat)
    (hσ : Signature.extract t d = .ok σ) :
    matchAt t (d :: rest) =
      match (Rule.atDepth d).find? fun r => decide (σ.text = r.template) with
      | some r => .ok (some (r, σ))
      | none => matchAt t rest := by
  rw [matchAt, hσ]
  simp only [bind, Except.bind]
  cases hfind : (Rule.atDepth d).find? fun r => decide (σ.text = r.template) with
  | none =>
      rw [if_neg]
      intro hmem
      obtain ⟨r, hr, htext⟩ := List.mem_map.1 (List.contains_iff_mem.1 hmem)
      exact List.find?_eq_none.1 hfind r hr (decide_eq_true htext.symm)
  | some r =>
      have htext : σ.text = r.template := by simpa using List.find?_some hfind
      rw [if_pos, htext, Rule.ofTemplate_template]
      · rfl
      · rw [List.contains_iff_mem, htext]
        exact List.mem_map_of_mem (List.mem_of_find?_eq_some hfind)

/-- At every list of depths, matching by text is matching by shape. -/
theorem matchAt_app (l r : Term) (depths : List Nat) :
    matchAt (app l r) depths = .ok ((matchShape (app l r) depths).map fun found =>
      (found.1, Signature.ofBindings found.1.template found.2)) := by
  induction depths with
  | nil => rfl
  | cons d rest ih =>
      rw [matchAt_cons rest (Signature.extract_app l r d), matchShape]
      simp only [Signature.text_ofBindings, text_eq_template_iff]
      cases hfind : (Rule.atDepth d).find? fun r' =>
          decide (((app l r).unfold (d + 1)).1 = r'.pattern) with
      | none => exact ih
      | some r' =>
          have hshape : ((app l r).unfold (d + 1)).1 = r'.pattern := by
            simpa using List.find?_some hfind
          rw [(text_eq_template_iff _ r').2 hshape]
          rfl

/-- At the depths of the catalogue, the shapes are those of `Term.redex?`. -/
theorem matchShape_depths (t : Term) (h : t.isAtom = false) :
    matchShape t Rule.depths = t.redex? := by
  match t with
  | prim p => cases h
  | var x => cases h
  | app (prim p) a => cases p <;> rfl
  | app (var x) a => rfl
  | app (app (prim p) a) b => cases p <;> rfl
  | app (app (var x) a) b => rfl
  | app (app (app (prim p) a) b) c => cases p <;> rfl
  | app (app (app (var x) a) b) c => rfl
  | app (app (app (app h a) b) c) d => rfl

/-- **The rule that the signatures of an application match is the one for its shape.** -/
theorem matchRedex_app (l r : Term) :
    matchRedex (app l r) = .ok ((app l r).redex?.map fun found =>
      (found.1, Signature.ofBindings found.1.template found.2)) := by
  rw [matchRedex, matchAt_app, matchShape_depths _ rfl]

end Evaluation

end Combinatory
