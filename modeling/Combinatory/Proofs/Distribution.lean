import Combinatory.Proofs.NormalForms
import Combinatory.Proofs.Repeats

/-!
# The distribution law

`S x y z` contracts to `x z (y z)`, so the results of both reduce to a common term.  They need
not be the same: the rule for `S` normalizes the branches `x z` and `y z` before it puts them
together, and nothing else may ever look at them again.

Where the branches are inert there is nothing to do in them, and the two sides come to the
same.  Their guards differ, though: the left side has committed `S x y z` itself and what was
committed in the branches.  None of this matters later, because inert terms come to themselves
and `S x y z` comes to what `x z (y z)` comes to, whether they have been committed or not.

## Main definitions

* `ReturnsFrom`: the results of normalization with a guard.
* `ComesAlike`: a term comes to the same with two guards.
* `Term.Indifferent`: the terms of which it does not matter whether the guard has them.

## Main results

* `comesAlike_of_acc`: the indifferent entries of a guard do not matter.
* `distribution_law`: how the results of both sides are related.
* `not_distribution_of_identity`: results that are not the same.
-/

namespace Combinatory

open Relation Term Guard

/-- Normalization for an owner, with a guard and without a limit, returns a term. -/
def ReturnsFrom (o : Owner) (g : Guard String) (t r : Term) : Prop :=
  ∃ n s, Evaluation.normalize o n t ⟨g, .unbounded, #[]⟩ = .ok r s

/-- A term comes to the same with two guards, which agree off `D` afterwards. -/
def ComesAlike (o : Owner) (D : Term → Prop) (t : Term) (g g' : Guard String) : Prop :=
  ∃ r h h', Comes o t g r h ∧ Comes o t g' r h' ∧ AgreesOff o D h h'

/-- A plan for a redex comes to the same with two guards, which agree off `D` afterwards. -/
def Plan.ComesAlike (o : Owner) (D : Term → Prop) (redex : Term) (p : Plan Term)
    (g g' : Guard String) : Prop :=
  ∃ r h h', p.Comes o redex g r h ∧ p.Comes o redex g' r h' ∧ AgreesOff o D h h'

section

variable {o : Owner} {D : Term → Prop} {redex t r x y z : Term} {p : Plan Term}
  {g g' h : Guard String}

theorem returnsFrom_iff : ReturnsFrom o g t r ↔ ∃ h, Comes o t g r h := by
  constructor
  · rintro ⟨n, s, hrun⟩
    rw [Evaluation.normalize_eq] at hrun
    exact ⟨_, Evaluation.evaluates_of_normalizeBy hrun⟩
  · rintro ⟨h, es, he⟩
    exact ⟨_, _, he.normalize⟩

/-- What comes to something halts, so that there is no infinite path of calls below it. -/
theorem Comes.acc (hc : Comes o t g r h) : Acc (flip (Calls o)) (t, g) :=
  halts_iff_acc.1 (halts_iff_comes.2 ⟨r, h, hc⟩)

/-! ## Indifferent entries -/

/-- The plan of a redex on which two guards agree comes to the same with both, if its calls
do: the commits are answered alike. -/
theorem Plan.comesAlike (hredex : ¬ D redex) (hagree : AgreesOff o D g g')
    (hcalls : ∀ es u k k', p.Asks o redex g es u k → AgreesOff o D k k' →
      Combinatory.ComesAlike o D u k k') : p.ComesAlike o D redex g g' := by
  induction p generalizing g g' with
  | done b => exact ⟨b, g, g', comes_done o redex b g, comes_done o redex b g', hagree⟩
  | call t next ih =>
      obtain ⟨u, k, k', ⟨es, first⟩, first', hk⟩ := hcalls [] t g g' (.here t next g) hagree
      obtain ⟨r, h, h', rest, rest', hh⟩ :=
        ih u hk fun es' v j j' ha => hcalls _ v j j' (.call first ha)
      exact ⟨r, h, h', comes_call ⟨es, first⟩ rest, comes_call first' rest', hh⟩
  | commit next ih =>
      have hfresh : (g'.commit o redex.script).1 = (g.commit o redex.script).1 := by
        rw [commit_fst, commit_fst, decide_eq_decide, hagree redex hredex]
      have hnext : AgreesOff o D (g.commit o redex.script).2 (g'.commit o redex.script).2 := by
        intro u hu
        rw [mem_entries_commit, mem_entries_commit, hagree u hu]
      obtain ⟨r, h, h', rest, rest', hh⟩ :=
        ih _ hnext fun es v j j' ha => hcalls _ v j j' (.commit ha)
      rw [← hfresh] at rest'
      exact ⟨r, h, h', comes_commit rest, comes_commit rest', hh⟩

/-- The terms of which it does not matter whether the guard has them, where the branches of
`S x y z` are inert. -/
def Term.Indifferent (x y z u : Term) : Prop := u.Inert ∨ u = app (app (app S x) y) z

/-- With inert branches, `S x y z` calls `x z (y z)` and comes to the same, with a guard that
agrees on all that matters. -/
theorem exists_calls_spread (hx : (app x z).Inert) (hy : (app y z).Inert) (o : Owner)
    (g : Guard String) :
    ∃ k, AgreesOff o (Indifferent x y z) g k ∧
      Calls o (app (app (app S x) y) z, g) (app (app x z) (app y z), k) ∧
      ∀ r h, Comes o (app (app x z) (app y z)) k r h →
        Comes o (app (app (app S x) y) z) g r h := by
  by_cases hold : (app (app (app S x) y) z).script ∈ g.entries o
  · refine ⟨g, .refl _ _ g, (calls_substitution_iff hold).2 rfl, fun r h hc => ?_⟩
    exact .of_redex?_eq_some rfl
      (Plan.comes_commit_old hold (Plan.comes_call hc (Plan.comes_done o _ r h)))
  · obtain ⟨k₁, left, hagree₁⟩ := hx.comes o (g.commit o _).2
    obtain ⟨k₂, right, hagree₂⟩ := hy.comes o k₁
    refine ⟨k₂, ?_, ?_, fun r h hc => ?_⟩
    · have hcommit := agreesOff_commit (D := Indifferent x y z) (o := o) g (.inr rfl)
      exact hcommit.trans ((hagree₁.trans hagree₂).mono fun _ => .inl)
    · have hred : (app (app (app S x) y) z).redex? = some (.substitution, [x, y, z]) := rfl
      rw [calls_iff hred]
      refine Plan.asksFor_commit_new hold ?_
      refine Plan.asksFor_call.2 (.inr ⟨_, k₁, left, ?_⟩)
      refine Plan.asksFor_call.2 (.inr ⟨_, k₂, right, ?_⟩)
      exact Plan.asksFor_call.2 (.inl rfl)
    · exact .of_redex?_eq_some rfl (Plan.comes_commit_new hold (Plan.comes_call left
        (Plan.comes_call right (Plan.comes_call hc (Plan.comes_done o _ r h)))))

/-- **The indifferent entries of a guard do not matter**: with inert branches, terms come to the
same with guards that agree off `S x y z` and off inert terms. -/
theorem comesAlike_of_acc (hx : (app x z).Inert) (hy : (app y z).Inert)
    (hacc : Acc (flip (Calls o)) (t, g)) (hagree : AgreesOff o (Indifferent x y z) g g') :
    ComesAlike o (Indifferent x y z) t g g' := by
  generalize hw : (t, g) = w at hacc
  induction hacc generalizing t g g' with
  | intro w _ ih =>
      subst hw
      by_cases hinert : t.Inert
      · obtain ⟨h, hc, hh⟩ := hinert.comes o g
        obtain ⟨h', hc', hh'⟩ := hinert.comes o g'
        refine ⟨t, h, h', hc, hc', ?_⟩
        exact (hh.mono fun _ => .inl).symm.trans (hagree.trans (hh'.mono fun _ => .inl))
      by_cases hspread : t = app (app (app S x) y) z
      · subst hspread
        obtain ⟨k, hk, hcall, hcomes⟩ := exists_calls_spread hx hy o g
        obtain ⟨k', hk', -, hcomes'⟩ := exists_calls_spread hx hy o g'
        obtain ⟨r, h, h', hc, hc', hh⟩ := ih _ hcall (hk.symm.trans (hagree.trans hk')) rfl
        exact ⟨r, h, h', hcomes r h hc, hcomes' r h' hc', hh⟩
      · cases hred : t.redex? with
        | none => exact absurd (.unmatched hred) hinert
        | some found =>
            obtain ⟨rule, args⟩ := found
            have hdiffer : ¬ Indifferent x y z t := not_or.2 ⟨hinert, hspread⟩
            obtain ⟨r, h, h', hc, hc', hh⟩ := Plan.comesAlike hdiffer hagree
              fun es u k k' ha hk => ih (u, k) ⟨rule, args, es, hred, ha⟩ hk rfl
            exact ⟨r, h, h', .of_redex?_eq_some hred hc, .of_redex?_eq_some hred hc', hh⟩

/-- With inert branches, `S x y z` and `x z (y z)` have the same results, if any. -/
theorem returnsFrom_substitution_iff (hx : (app x z).Inert) (hy : (app y z).Inert) :
    ReturnsFrom o g (app (app (app S x) y) z) r ↔
      ReturnsFrom o g (app (app x z) (app y z)) r := by
  obtain ⟨k, hk, hcall, hcomes⟩ := exists_calls_spread hx hy o g
  rw [returnsFrom_iff, returnsFrom_iff]
  constructor
  · rintro ⟨h, hc⟩
    obtain ⟨r', h₁, h₂, hc₁, hc₂, -⟩ := comesAlike_of_acc hx hy (hc.acc.inv hcall) hk.symm
    obtain ⟨rfl, -⟩ := hc.unique (hcomes r' h₁ hc₁)
    exact ⟨h₂, hc₂⟩
  · rintro ⟨h, hc⟩
    obtain ⟨r', h₁, h₂, hc₁, hc₂, -⟩ := comesAlike_of_acc hx hy hc.acc hk
    obtain ⟨rfl, -⟩ := hc.unique hc₁
    exact ⟨h₂, hcomes r h₂ hc₂⟩

/-! ## The law -/

/-- Results are reducts. -/
theorem ReturnsFrom.steps (h : ReturnsFrom o g t r) : Steps t r := by
  obtain ⟨k, es, he⟩ := returnsFrom_iff.1 h
  exact he.steps

/-- There is one result at most. -/
theorem ReturnsFrom.unique {r' : Term} (h : ReturnsFrom o g t r) (h' : ReturnsFrom o g t r') :
    r = r' := by
  obtain ⟨k, hc⟩ := returnsFrom_iff.1 h
  obtain ⟨k', hc'⟩ := returnsFrom_iff.1 h'
  exact (hc.unique hc').1

/-- **The distribution law, as far as it goes.**  Results of `S x y z` and of `x z (y z)`, found
with the same guard, have a common reduct, and so the same rendering if no redex occurs in
them.  If both branches are inert, the two sides halt alike, and the results have the same
rendering. -/
theorem distribution_law (o : Owner) (g : Guard String) (x y z : Term) :
    let left := app (app (app S x) y) z
    let right := app (app x z) (app y z)
    (∀ r₁ r₂, ReturnsFrom o g left r₁ → ReturnsFrom o g right r₂ →
      (∃ u, Steps r₁ u ∧ Steps r₂ u) ∧
      (r₁.IsNormal → r₂.IsNormal → r₁.script = r₂.script) ∧
      ((app x z).Inert → (app y z).Inert → r₁.script = r₂.script)) ∧
    ((app x z).Inert → (app y z).Inert → (Halts o left g ↔ Halts o right g)) := by
  intro left right
  refine ⟨fun r₁ r₂ h₁ h₂ => ?_, fun hx hy => ?_⟩
  · have hright : Steps left r₂ := .head (.root (.substitution x y z)) h₂.steps
    refine ⟨h₁.steps.church_rosser hright, fun hn₁ hn₂ => ?_, fun hx hy => ?_⟩
    · exact congrArg script (h₁.steps.unique_normal hright hn₁ hn₂)
    · have hsame : ReturnsFrom o g right r₁ := (returnsFrom_substitution_iff hx hy).1 h₁
      exact congrArg script (hsame.unique h₂)
  · have halts_iff : ∀ t, Halts o t g ↔ ∃ r, ReturnsFrom o g t r := fun t => exists_comm
    rw [halts_iff, halts_iff]
    exact exists_congr fun r => returnsFrom_substitution_iff hx hy

end

/-- The branch `I K` of `S S I K` comes to `K` on the left, and stays as it is on the right,
because `S` lacks an argument. -/
theorem returnsFrom_identity_branch :
    ReturnsFrom (.thread .main) .empty (app (app (app S S) I) K) (app (app S K) K) ∧
      ReturnsFrom (.thread .main) .empty (app (app S K) (app I K)) (app (app S K) (app I K)) :=
  ⟨⟨4, _, rfl⟩, ⟨1, _, rfl⟩⟩

/-- The law at `S S I K`, where the results meet, and at `S K S K`, where both branches are
inert, both sides have results, and these have one rendering. -/
theorem distribution_law_of_primitives :
    (∃ u, Steps (app (app S K) K) u ∧ Steps (app (app S K) (app I K)) u) ∧
      K.IsNormal ∧ (app K K).Inert ∧ (app S K).Inert ∧
      ReturnsFrom (.thread .main) .empty (app (app (app S K) S) K) K ∧
      ReturnsFrom (.thread .main) .empty (app (app K K) (app S K)) K ∧
      (Halts (.thread .main) (app (app (app S K) S) K) .empty ↔
        Halts (.thread .main) (app (app K K) (app S K)) .empty) ∧
      ∀ r₁ r₂, ReturnsFrom (.thread .main) .empty (app (app (app S K) S) K) r₁ →
        ReturnsFrom (.thread .main) .empty (app (app K K) (app S K)) r₂ →
          r₁.script = r₂.script := by
  have hleft : ReturnsFrom (.thread .main) .empty (app (app (app S K) S) K) K := ⟨4, _, rfl⟩
  have hright : ReturnsFrom (.thread .main) .empty (app (app K K) (app S K)) K := ⟨1, _, rfl⟩
  have hx : (app K K).Inert := .unmatched rfl
  have hy : (app S K).Inert := .unmatched rfl
  have hmeet := distribution_law (.thread .main) .empty S I K
  have hsame := distribution_law (.thread .main) .empty K S K
  refine ⟨(hmeet.1 _ _ returnsFrom_identity_branch.1 returnsFrom_identity_branch.2).1,
    isNormal_prim .K, hx, hy, hleft, hright, hsame.2 hx hy, fun r₁ r₂ h₁ h₂ => ?_⟩
  exact (hsame.1 r₁ r₂ h₁ h₂).2.2 hx hy

/-- Not all results of `S x y z` and `x z (y z)` have the same rendering. -/
theorem not_distribution_of_identity :
    ¬ ∀ x y z r₁ r₂, ReturnsFrom (.thread .main) .empty (app (app (app S x) y) z) r₁ →
      ReturnsFrom (.thread .main) .empty (app (app x z) (app y z)) r₂ →
        r₁.script = r₂.script := by
  intro h
  have hsame : (app (app S K) K).script = (app (app S K) (app I K)).script :=
    h S I K _ _ returnsFrom_identity_branch.1 returnsFrom_identity_branch.2
  have hdiffer : app (app S K) K ≠ app (app S K) (app I K) := by decide
  exact hdiffer (script_injective hsame)

end Combinatory
