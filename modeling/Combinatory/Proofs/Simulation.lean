import Combinatory.Proofs.Lockstep

/-!
# Guards with other entries

What an engine does depends on its guard only through the answers to commits.  Two guards
may hold entries of different types: if each type has an entry of its own for every term,
and the guards have the entries of the same terms, then the engines take the same course,
and afterwards the guards have the entries of the same terms again.

## Main definitions

* `Evaluation.Alike`: states that differ in the entries of their guards only.
* `Evaluation.SameEntries`: guards with the entries of the same terms.
* `Evaluation.Matched`, `Evaluation.Simulates`: results, and computations, that do.

## Main results

* `Evaluation.simulates_normalizeBy`: engines simulate each other.
-/

namespace Combinatory

namespace Evaluation

open Term

variable {α α' β : Type} {o : Owner} {entry : Term → α} {entry' : Term → α'}

/-- States with the same budget and the same trace, whose guards have the entries of the
same terms for an owner. -/
structure Alike (o : Owner) (entry : Term → α) (entry' : Term → α') (s : Run α)
    (s' : Run α') : Prop where
  budget : s.budget = s'.budget
  trace : s.trace = s'.trace
  guard : ∀ u, entry u ∈ s.guard.entries o ↔ entry' u ∈ s'.guard.entries o

/-- The same result, or the same stop, in states that are alike. -/
inductive Matched (o : Owner) (entry : Term → α) (entry' : Term → α') :
    EStateM.Result Stop (Run α) β → EStateM.Result Stop (Run α') β → Prop
  | ok (b : β) {s : Run α} {s' : Run α'} :
      Alike o entry entry' s s' → Matched o entry entry' (.ok b s) (.ok b s')
  | error (e : Stop) {s : Run α} {s' : Run α'} :
      Alike o entry entry' s s' → Matched o entry entry' (.error e s) (.error e s')

/-- Computations that match each other from states that are alike. -/
def Simulates (o : Owner) (entry : Term → α) (entry' : Term → α') (x : Evaluation α β)
    (x' : Evaluation α' β) : Prop :=
  ∀ s s', Alike o entry entry' s s' → Matched o entry entry' (x s) (x' s')

/-- Guards that have the entries of the same terms for an owner. -/
def SameEntries (o : Owner) (entry : Term → α) (entry' : Term → α') (g : Guard α)
    (g' : Guard α') : Prop :=
  ∀ u, entry u ∈ g.entries o ↔ entry' u ∈ g'.entries o

/-- Computations in step, on guards that have the entries of the same terms, match. -/
theorem simulates_of_inStep {x : Evaluation α β} {x' : Evaluation α' β}
    (h : InStep (Agree (SameEntries o entry entry')) (fun _ => True) x x') :
    Simulates o entry entry' x x' := by
  intro s s' halike
  have hpair := h s s' ⟨halike.budget, halike.trace, halike.guard⟩
  generalize x s = result at hpair
  generalize x' s' = result' at hpair
  cases hpair with
  | ok b hlast => exact .ok b ⟨hlast.budget, hlast.trace, hlast.guard⟩
  | error _ hlast => exact .error _ ⟨hlast.budget, hlast.trace, hlast.guard⟩

section

variable [DecidableEq α] [DecidableEq α'] (hentry : Function.Injective entry)
  (hentry' : Function.Injective entry')

include hentry hentry'

/-- A commit has the same answer, and adds the entry of the same term. -/
theorem coupling_sameEntries :
    Coupling (Agree (SameEntries o entry entry')) (fun _ => True) o entry entry'
      fun _ => True := by
  refine coupling_of_guards (fun _ _ _ _ => trivial) fun t _ _ g g' hg => ⟨?_, fun u => ?_⟩
  · rw [Guard.commit_fst, Guard.commit_fst, decide_eq_decide, hg t]
  · rw [Guard.mem_entries_commit, Guard.mem_entries_commit, hentry.eq_iff, hentry'.eq_iff, hg u]

/-- **Engines with other entries simulate each other**, if no two terms have one entry. -/
theorem simulates_normalizeBy (n : Nat) (t : Term) :
    Simulates o entry entry' (normalizeBy o entry n t) (normalizeBy o entry' n t) :=
  simulates_of_inStep ((coupling_sameEntries hentry hentry').normalizeBy n t trivial)

end

end Evaluation

end Combinatory
