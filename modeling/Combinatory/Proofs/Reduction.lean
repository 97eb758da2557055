import Combinatory.Term.Basic
import Mathlib.Logic.Relation

/-!
# Weak reduction

The reduction of combinatory logic, as a relation between terms: a redex anywhere in a
term may be contracted.  Nothing here refers to the order in which an evaluation
contracts redexes, to signatures, or to guards; this is what evaluations are compared
with.

## Main definitions

* `Contracts`: a redex and its contractum.
* `Step`, `Steps`: one contraction anywhere in a term, and any number of them.
* `Subterm`: the occurrences of one term in another.
* `IsNormal`: terms without a redex.
-/

namespace Combinatory

namespace Term

/-- The redexes, each with its contractum. -/
inductive Contracts : Term → Term → Prop
  | identity (a : Term) : Contracts (app I a) a
  | constant (a b : Term) : Contracts (app (app K a) b) a
  | substitution (a b c : Term) :
      Contracts (app (app (app S a) b) c) (app (app a c) (app b c))

/-- A term that can be contracted at its root. -/
def IsRedex (t : Term) : Prop := ∃ u, Contracts t u

/-- One contraction, at the root or in either part. -/
inductive Step : Term → Term → Prop
  | root {t u : Term} : Contracts t u → Step t u
  | left {l l' : Term} (r : Term) : Step l l' → Step (app l r) (app l' r)
  | right (l : Term) {r r' : Term} : Step r r' → Step (app l r) (app l r')

/-- Any number of contractions. -/
abbrev Steps : Term → Term → Prop := Relation.ReflTransGen Step

/-- `Subterm u t` says that `u` occurs in `t`. -/
inductive Subterm : Term → Term → Prop
  | refl (t : Term) : Subterm t t
  | left {u l : Term} (r : Term) : Subterm u l → Subterm u (app l r)
  | right {u r : Term} (l : Term) : Subterm u r → Subterm u (app l r)

/-- A term is normal when no redex occurs in it. -/
def IsNormal (t : Term) : Prop := ∀ u, Subterm u t → ¬ IsRedex u

namespace Steps

variable {l l' r r' t u : Term}

/-- Reduction of the left part of an application. -/
theorem left (r : Term) (h : Steps l l') : Steps (app l r) (app l' r) :=
  h.lift (fun l => app l r) fun _ _ => Step.left r

/-- Reduction of the right part of an application. -/
theorem right (l : Term) (h : Steps r r') : Steps (app l r) (app l r') :=
  h.lift (app l) fun _ _ => Step.right l

/-- Reduction of both parts of an application. -/
theorem congr_app (hl : Steps l l') (hr : Steps r r') : Steps (app l r) (app l' r') :=
  (hl.left r).trans (hr.right l')

end Steps

/-- The term where a step contracts a redex has that redex as a subterm. -/
theorem Step.exists_redex {t u : Term} (h : Step t u) :
    ∃ v, Subterm v t ∧ IsRedex v := by
  induction h with
  | root h => exact ⟨_, .refl _, _, h⟩
  | left r _ ih =>
      obtain ⟨v, hv, hr⟩ := ih
      exact ⟨v, .left r hv, hr⟩
  | right l _ ih =>
      obtain ⟨v, hv, hr⟩ := ih
      exact ⟨v, .right l hv, hr⟩

/-- A redex that occurs in a term can be contracted there. -/
theorem Subterm.exists_step {t v : Term} (h : Subterm v t) (hr : IsRedex v) :
    ∃ u, Step t u := by
  induction h with
  | refl =>
      obtain ⟨u, hu⟩ := hr
      exact ⟨u, .root hu⟩
  | left r _ ih =>
      obtain ⟨u, hu⟩ := ih
      exact ⟨_, .left r hu⟩
  | right l _ ih =>
      obtain ⟨u, hu⟩ := ih
      exact ⟨_, .right l hu⟩

/-- Normal terms are those from which no step leads. -/
theorem isNormal_iff_forall_not_step {t : Term} : t.IsNormal ↔ ∀ u, ¬ Step t u := by
  constructor
  · intro h u hu
    obtain ⟨v, hv, hr⟩ := hu.exists_redex
    exact h v hv hr
  · intro h v hv hr
    obtain ⟨u, hu⟩ := hv.exists_step hr
    exact h u hu

/-- A normal term reduces to itself only. -/
theorem IsNormal.eq_of_steps {t u : Term} (h : t.IsNormal) (hu : Steps t u) : u = t := by
  rcases Relation.ReflTransGen.cases_head hu with rfl | ⟨v, hv, -⟩
  · rfl
  · exact absurd hv (isNormal_iff_forall_not_step.1 h v)

end Term

end Combinatory
