import Combinatory.Proofs.Commands
import Combinatory.Proofs.Repeats
import Combinatory.Proofs.Soundness

/-!
# Agreement of results

A guard changes how far an evaluation goes, but not where to.  All results of one term are
reducts of it, and reductions of one term can be continued so that they meet; this holds
for evaluations by themselves and for commands of a session, whose guard is given to them
or found by a scope, after whatever has been done in the session.

## Main definitions

* `Returns`: a term has a result, in an evaluation or in a session.

## Main results

* `Returns.steps`: results are reducts.
* `results_meet`: two results of one term meet, and are the same if they are normal.
-/

namespace Combinatory

open Term

/-! ## Commands -/

namespace Session

variable {o : Owner} {t : Term} {given : Option Nat} {scope cap : Datum} {S S' : Session}
  {report : Report}

/-- A normalization in a session has the outcome of a normalization with some guard and
some budget. -/
theorem outcome_of_normalize (h : normalize o (.term t) given scope cap S = .ok report S') :
    ∃ nesting s, report.outcome = Evaluation.outcome (Evaluation.normalize o nesting t s) := by
  rw [normalize_apply] at h
  cases hguard : resolveGuard given scope S with
  | error f S₁ =>
      rw [hguard] at h
      cases h
  | ok id S₁ =>
      rw [hguard] at h
      cases hbudget : newBudget S₁.settings cap with
      | error f => simp [hbudget] at h
      | ok b =>
          simp only [hbudget] at h
          cases h
          exact ⟨_, _, rfl⟩

end Session

/-! ## Results -/

/-- A term has a result: for some owner, guard and budget in an evaluation, or in a session
in which anything may have been done before. -/
inductive Returns (t : Term) : Term → Prop
  | evaluation {o : Owner} {nesting : Nat} {s s' : Run String} {r : Term}
      (h : Evaluation.normalize o nesting t s = .ok r s') : Returns t r
  | command {o : Owner} {given : Option Nat} {scope cap : Datum} {S S' : Session}
      {report : Report} {r : Term}
      (h : Session.normalize o (.term t) given scope cap S = .ok report S')
      (hr : report.outcome = .ok r) : Returns t r

variable {t r r₁ r₂ : Term}

/-- Every result is that of an evaluation. -/
theorem Returns.exists_run (h : Returns t r) :
    ∃ o nesting s s', Evaluation.normalize o nesting t s = .ok r s' := by
  cases h with
  | @evaluation o nesting s s' r h => exact ⟨o, nesting, s, s', h⟩
  | @command o given scope cap S S' report r h hr =>
      obtain ⟨nesting, s, hout⟩ := Session.outcome_of_normalize h
      obtain ⟨s', hrun⟩ := Evaluation.outcome_eq_ok.1 (hout.symm.trans hr)
      exact ⟨o, nesting, s, s', hrun⟩

/-- Results are reducts. -/
theorem Returns.steps (h : Returns t r) : Steps t r := by
  obtain ⟨o, nesting, s, s', hrun⟩ := h.exists_run
  rw [Evaluation.normalize_eq] at hrun
  exact Evaluation.steps_of_normalizeBy hrun

/-- What a term comes to is a result. -/
theorem Evaluates.returns {o : Owner} {g h : Guard String} {es : List Event}
    (he : Evaluates o t g es r h) : Returns t r := .evaluation he.normalize

/-- **Two results of one term meet**: with whatever guards and budgets they were found,
they have a common reduct, and if no redex occurs in either, they are the same. -/
theorem results_meet (h₁ : Returns t r₁) (h₂ : Returns t r₂) :
    (∃ u, Steps r₁ u ∧ Steps r₂ u) ∧ (r₁.IsNormal → r₂.IsNormal → r₁ = r₂) :=
  ⟨h₁.steps.church_rosser h₂.steps, h₁.steps.unique_normal h₂.steps⟩

/-- The two results of a redex, for a guard that does not have it and for one that does, are
different, and meet. -/
theorem results_meet_of_committed :
    let t := app (app (app I K) S) I
    Returns t S ∧ Returns t (app (app K S) I) ∧
      ∃ u, Steps S u ∧ Steps (app (app K S) I) u := by
  intro t
  have hnew : Returns t S := by
    have hempty : t.script ∉ (Guard.empty : Guard String).entries (.thread .main) :=
      List.not_mem_nil
    exact Evaluates.returns (.fire rfl (.commit_new hempty (.normal rfl (.normal rfl
      (.normal rfl (.normal rfl (.fire rfl (.done _ S _) (.done t S _))))))))
  have hold : Returns t (app (app K S) I) := by
    let g := (Guard.empty.commit (.thread .main) t.script).2
    have hmem : t.script ∈ g.entries (.thread .main) := by
      rw [Guard.mem_entries_commit]
      exact .inl rfl
    exact Evaluates.returns (.fire rfl (.commit_old hmem (.normal rfl (.done t _ g))))
  exact ⟨hnew, hold, (results_meet hnew hold).1⟩

end Combinatory
