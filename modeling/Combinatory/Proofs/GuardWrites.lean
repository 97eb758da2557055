import Combinatory.Proofs.Confinement
import Combinatory.Proofs.Ledger
import Combinatory.Proofs.Threads

/-!
# What a run writes to the guard

A run only adds to the guard, and what it adds are redexes of its own: they occur in reducts of
the term that is normalized, and have a left spine that one of the committing rules is for.  This
holds of the guard at every moment, so it also holds of a run that is cut off by its limit.

## Main definitions

* `Guard.GrewBy`: a guard came from another by commits of certain terms.

## Main results

* `Evaluation.ledger_grewBy`: growth by reachable redexes is an invariant of runs.
* `Evaluation.commits_reachable_redexes`: what a run writes.
-/

namespace Combinatory

open Term

/-- The guard `h` came from the guard `g` by commits, for an owner, of terms of `W`: nothing is
lost, and what is new is the text of such a term. -/
structure Guard.GrewBy (o : Owner) (W : Term → Prop) (g h : Guard String) : Prop where
  keeps : g.entries o ⊆ h.entries o
  adds : ∀ text, NewlyCommitted o g h text → ∃ u, W u ∧ u.script = text

namespace Guard.GrewBy

variable {o : Owner} {W : Term → Prop} {g h : Guard String}

theorem refl (o : Owner) (W : Term → Prop) (g : Guard String) : GrewBy o W g g :=
  ⟨List.Subset.refl _, fun _ hnew => absurd hnew.1 hnew.2⟩

/-- One more commit of a term of `W`. -/
theorem commit (hgrew : GrewBy o W g h) {u : Term} (hu : W u) :
    GrewBy o W g (h.commit o u.script).2 where
  keeps := fun text htext => (mem_entries_commit h o _ text).2 (.inr (hgrew.keeps htext))
  adds := by
    rintro text ⟨hmem, hold⟩
    rcases (mem_entries_commit h o _ text).1 hmem with rfl | hmem
    · exact ⟨u, hu, rfl⟩
    · exact hgrew.adds text ⟨hmem, hold⟩

end Guard.GrewBy

namespace Evaluation

/-- Growth by redexes that the term reaches is an invariant of its run, whatever is due. -/
theorem ledger_grewBy (o : Owner) (t : Term) (g : Guard String) :
    Ledger (fun _ s => g.GrewBy o (fun u => t.Reaches u ∧ u.IsGuarded) s.guard)
      (fun _ s => g.GrewBy o (fun u => t.Reaches u ∧ u.IsGuarded) s.guard)
      o Term.script t.Reaches where
  down _ _ hu hv := hu.descends hv
  deep _ _ hs := hs
  refuse := by
    intro _ s e s' hs hpay
    have hlast := last_pay s
    rw [hpay, last_error] at hlast
    rwa [hlast]
  fire := by
    rintro _ rule u s _ hs ⟨s₀, hpay, rfl⟩
    rwa [eq_of_pay hpay]
  commit := by
    intro _ u s hu hguarded hs
    rw [commit_apply]
    exact hs.commit ⟨hu, hguarded⟩

/-- **A run adds redexes of its own to the guard.**  However it ends, it takes nothing out of the
guard.  What is new is new for its owner, and is the text of an application that occurs in a
reduct of the term: one whose left spine has the head `I` with two or three arguments, the head
`S` with three, or any head with four or more. -/
theorem commits_reachable_redexes (o : Owner) (nesting : Nat) (t : Term) (s : Run String) :
    let h := (last (normalize o nesting t s)).guard
    ∀ o', s.guard.entries o' ⊆ h.entries o' ∧
      ∀ text, NewlyCommitted o' s.guard h text → o' = o ∧
        ∃ u, t.Reaches u ∧ u.isAtom = false ∧ u.IsGuarded ∧ u.script = text := by
  intro h o'
  by_cases ho : o' = o
  · subst ho
    have hgrew : s.guard.GrewBy o' (fun u => t.Reaches u ∧ u.IsGuarded) h := by
      have hkeeps := (ledger_grewBy o' t s.guard).normalizeBy nesting t (.refl t) 0 s (.refl ..)
      rw [← normalize_eq] at hkeeps
      exact hkeeps.last
    refine ⟨hgrew.keeps, fun text hnew => ⟨rfl, ?_⟩⟩
    obtain ⟨u, ⟨hreach, hguarded⟩, htext⟩ := hgrew.adds text hnew
    exact ⟨u, hreach, hguarded.isAtom_eq_false, hguarded, htext⟩
  · have hsame : h.entries o' = s.guard.entries o' := entries_normalize_of_ne ho nesting t s
    refine ⟨hsame ▸ List.Subset.refl _, fun text hnew => ?_⟩
    exact absurd (hsame ▸ hnew.1) hnew.2

/-- A run that is cut off by its limit, after it has committed a redex that is no part of the
term, but of a reduct. -/
theorem commits_reachable_redexes_of_cut :
    let main : Owner := .thread .main
    let redex := app (app I (app K I)) S
    let t := app (app (app K (app I (app K I))) K) S
    let start : Run String := ⟨.empty, .counted (some 2) 0, #[]⟩
    let h := (last (normalize main 3 t start)).guard
    outcome (normalize main 3 t start) =
        .error (.fault (.limitExceeded (.integer 3) (.integer 2))) ∧
      NewlyCommitted main .empty h redex.script ∧
      ∃ u, t.Reaches u ∧ u.isAtom = false ∧ u.IsGuarded ∧ u.script = redex.script := by
  intro main redex t start h
  have hentries : h.entries main = [redex.script] := rfl
  have hnew : NewlyCommitted main .empty h redex.script :=
    ⟨hentries ▸ .head _, List.not_mem_nil⟩
  obtain ⟨-, hadds⟩ := commits_reachable_redexes main 3 t start main
  exact ⟨rfl, hnew, (hadds _ hnew).2⟩

end Evaluation

end Combinatory
