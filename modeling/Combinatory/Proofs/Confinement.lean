import Combinatory.Proofs.Lockstep

/-!
# What a guard can leak

A guard that is shared brings the redexes of other evaluations into a run.  It matters only
which of them are reachable from the term that is normalized: those that occur in a reduct of
it.  Rules put new applications together out of what calls return, but all of it lies on the
way down from the term, and the way down leads to parts of reducts and nowhere else
(`Term.Reaches.descends`).  So nothing else that a guard holds is ever looked up.

## Main definitions

* `Term.Reaches`: what occurs in a reduct of a term.
* `SameReachable`: guards that hold the same redexes that are reachable from a term.

## Main results

* `Term.Reaches.descends`: the way down from what is reachable.
* `leakage_confined`: runs depend on the reachable redexes of a guard only.
-/

namespace Combinatory

namespace Term

variable {t u v w : Term}

theorem Subterm.trans (huv : Subterm u v) (hvw : Subterm v w) : Subterm u w := by
  induction hvw with
  | refl => exact huv
  | left r _ ih => exact .left r ih
  | right l _ ih => exact .right l ih

/-- A step in a part is a step of the whole, after which the new part is there. -/
theorem Subterm.exists_step_of_step (h : Subterm u t) (hs : Step u v) :
    ∃ w, Step t w ∧ Subterm v w := by
  induction h with
  | refl => exact ⟨v, hs, .refl v⟩
  | left r _ ih =>
      obtain ⟨w, hw, hv⟩ := ih
      exact ⟨_, .left r hw, .left r hv⟩
  | right l _ ih =>
      obtain ⟨w, hw, hv⟩ := ih
      exact ⟨_, .right l hw, .right l hv⟩

/-- `t.Reaches u` says that `u` occurs in a reduct of `t`. -/
def Reaches (t u : Term) : Prop := ∃ v, Steps t v ∧ Subterm u v

theorem Reaches.refl (t : Term) : Reaches t t := ⟨t, .refl, .refl t⟩

/-- **Ways down from what is reachable lead to what is reachable.** -/
theorem Reaches.descends (h : Reaches t u) (hv : Descends u v) : Reaches t v := by
  obtain ⟨w, hw, hu⟩ := h
  cases hv with
  | step hs =>
      obtain ⟨w', hw', hv⟩ := hu.exists_step_of_step hs
      exact ⟨w', hw.tail hw', hv⟩
  | left => exact ⟨w, hw, (Subterm.left _ (.refl _)).trans hu⟩
  | right => exact ⟨w, hw, (Subterm.right _ (.refl _)).trans hu⟩

/-- What is reached without `S` has no `S`. -/
theorem Reaches.not_subterm_S (h : Reaches t u) (hS : ¬ Subterm S t) : ¬ Subterm S u := by
  obtain ⟨v, hv, hu⟩ := h
  have hSv : ¬ Subterm S v := by
    clear hu
    induction hv with
    | refl => exact hS
    | tail _ hstep ih => exact (hstep.size_lt ih).2
  exact fun hSu => hSv (hSu.trans hu)

end Term

open Term Evaluation

/-- Two guards hold, for an owner, the same of the applications that a term reaches. -/
def SameReachable (o : Owner) (t : Term) (g g' : Guard String) : Prop :=
  ∀ u, u.isAtom = false → t.Reaches u → (u.script ∈ g.entries o ↔ u.script ∈ g'.entries o)

/-- What an owner has committed to the guard `h` and had not committed to the guard `g`. -/
def NewlyCommitted (o : Owner) (g h : Guard String) (text : String) : Prop :=
  text ∈ h.entries o ∧ text ∉ g.entries o

/-- Guards that came from `g₁` and `g₂` hold the same reachable redexes, and what is new in
them is the same. -/
structure SameProgress (o : Owner) (t : Term) (g₁ g₂ h₁ h₂ : Guard String) : Prop where
  reachable : SameReachable o t h₁ h₂
  new : ∀ text, NewlyCommitted o g₁ h₁ text ↔ NewlyCommitted o g₂ h₂ text

section

variable {o : Owner} {t : Term} {g₁ g₂ : Guard String}

/-- Commits of what is reachable keep guards in the same progress. -/
theorem coupling_sameProgress (hg : SameReachable o t g₁ g₂) :
    Coupling (Agree (SameProgress o t g₁ g₂)) (fun _ => True) o Term.script Term.script
      t.Reaches := by
  refine coupling_of_guards (fun _ _ hu hv => hu.descends hv) ?_
  rintro u hu happ h₁ h₂ ⟨hsame, hnew⟩
  refine ⟨?_, fun v hv happ' => ?_, fun text => ?_⟩
  · rw [Guard.commit_fst, Guard.commit_fst, decide_eq_decide, hsame u happ hu]
  · rw [Guard.mem_entries_commit, Guard.mem_entries_commit, hsame v hv happ']
  · have hold := hnew text
    simp only [NewlyCommitted, Guard.mem_entries_commit] at hold ⊢
    by_cases heq : text = u.script
    · -- What is committed now is new since the start for both guards, or for neither.
      subst heq
      simp [hg u happ hu]
    · simpa [heq] using hold

/-- **Only reachable redexes leak.**  Let two guards hold, for an owner, the same of the
applications that occur in reducts of a term, whatever else they hold, for the owner or for
others.  Then normalization halts with both of them or with neither; and with every budget
both runs have the same outcome, count the same firings, record the same events and commit
the same redexes that were not there before. -/
theorem leakage_confined (hg : SameReachable o t g₁ g₂) :
    (Halts o t g₁ ↔ Halts o t g₂) ∧
      ∀ (nesting : Nat) (b : Budget),
        let result₁ := normalize o nesting t ⟨g₁, b, #[]⟩
        let result₂ := normalize o nesting t ⟨g₂, b, #[]⟩
        outcome result₁ = outcome result₂ ∧
          (last result₁).budget = (last result₂).budget ∧
          (last result₁).trace = (last result₂).trace ∧
          ∀ text, NewlyCommitted o g₁ (last result₁).guard text ↔
            NewlyCommitted o g₂ (last result₂).guard text := by
  have hruns : ∀ nesting b, Paired (Agree (SameProgress o t g₁ g₂)) (fun _ => True)
      (normalize o nesting t ⟨g₁, b, #[]⟩) (normalize o nesting t ⟨g₂, b, #[]⟩) := by
    intro nesting b
    have hstart : SameProgress o t g₁ g₂ g₁ g₂ := ⟨hg, fun text => by simp [NewlyCommitted]⟩
    rw [normalize_eq]
    exact (coupling_sameProgress hg).normalizeBy nesting t (.refl t) _ _ ⟨rfl, rfl, hstart⟩
  constructor
  · rw [halts_iff_outcome, halts_iff_outcome]
    simp only [(hruns _ _).outcome_eq]
  · intro nesting b result₁ result₂
    have hrun := hruns nesting b
    exact ⟨hrun.outcome_eq, hrun.related.budget, hrun.related.trace, hrun.related.guard.new⟩

/-- A redex that was committed before falls back, with the redex of another evaluation in the
guard and without it. -/
theorem leakage_confined_of_foreign :
    let main : Owner := .thread .main
    let t := app (app I K) K
    let foreign := app (app (app S K) K) I
    let g := (Guard.empty.commit main t.script).2
    let g' := (g.commit main foreign.script).2
    SameReachable main t g g' ∧ ∀ n b,
      outcome (normalize main n t ⟨g, b, #[]⟩) = outcome (normalize main n t ⟨g', b, #[]⟩) := by
  intro main t foreign g g'
  have hg : SameReachable main t g g' := by
    intro u _ hu
    have hforeign : u ≠ foreign := by
      rintro rfl
      exact hu.not_subterm_S (by simp [t]) (by simp [foreign])
    rw [Guard.mem_entries_commit g, Term.script_injective.eq_iff]
    exact (or_iff_right hforeign).symm
  exact ⟨hg, fun n b => ((leakage_confined hg).2 n b).1⟩

end

end Combinatory
