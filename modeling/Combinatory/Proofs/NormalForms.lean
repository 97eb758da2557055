import Combinatory.Proofs.Limits
import Combinatory.Proofs.Progress
import Combinatory.Proofs.Termination

/-!
# Normal forms

Normalization gives every normal term back, whatever the guard holds, but not for nothing.  A
term that no rule applies to is returned at once.  A longer spine is taken apart even if there
is nothing to contract in it: its nested head, the spine without the last argument, and the
last argument are normalized, and if the spine was new to the guard, it is normalized once more
as a whole.  Terms that are gone through in this way without meeting a redex are called inert;
they come to themselves, and all that is committed on the way is inert again.

## Main definitions

* `Term.Inert`: terms in which normalization meets nothing to contract.
* `Guard.AgreesOff`: guards that differ in the entries of certain terms only.

## Main results

* `Term.IsNormal.inert`: normal terms are inert.
* `Term.Inert.comes`: inert terms come to themselves.
* `normal_forms_fixed`: normalization gives normal terms back.
* `normal_forms_cost`: which normal terms are given back for nothing.
-/

namespace Combinatory

open Term Event

/-! ## Normal terms -/

namespace Term

variable {t l r : Term}

theorem isNormal_app_iff :
    (app l r).IsNormal ↔ ¬ (app l r).IsRedex ∧ l.IsNormal ∧ r.IsNormal := by
  simp only [IsNormal, subterm_app_iff, or_imp, forall_and, forall_eq]

@[simp] theorem isNormal_prim (p : Primitive) : (prim p).IsNormal := by
  rw [isNormal_iff_forall_not_step]
  rintro u ⟨⟨⟩⟩

@[simp] theorem isNormal_var (x : VarName) : (var x).IsNormal := by
  rw [isNormal_iff_forall_not_step]
  rintro u ⟨⟨⟩⟩

/-- A normal term has no redex at its head. -/
theorem IsNormal.not_hasHeadRedex (h : t.IsNormal) : ¬ t.HasHeadRedex := by
  intro hhead
  induction hhead with
  | root hred => exact h _ (.refl _) hred
  | left r _ ih => exact ih (isNormal_app_iff.1 h).2.1

/-- A spine with four arguments or more has a nested head. -/
theorem exists_spine_of_length (h : 4 ≤ t.arguments.length) :
    ∃ f a b c d, t = app (app (app (app f a) b) c) d := by
  obtain ⟨n, hn⟩ := Nat.exists_eq_add_of_le' h
  have hred := select_of_length hn
  rw [select_eq] at hred
  obtain ⟨f, a, b, c, d, ht, -⟩ := exists_spine_of_redex? hred
  exact ⟨f, a, b, c, d, ht⟩

/-! ## Inert terms -/

/-- Terms in which normalization meets nothing to contract: no rule applies to them, or they
are longer spines, and the parts that are normalized are inert. -/
inductive Inert : Term → Prop
  | unmatched {t : Term} (hred : t.redex? = none) : Inert t
  | spine {f a b c d : Term} (head : Inert (app f a))
      (inner : Inert (app (app (app f a) b) c)) (last : Inert d) :
      Inert (app (app (app (app f a) b) c) d)

/-- **Normal terms are inert.** -/
theorem IsNormal.inert (h : t.IsNormal) : t.Inert := by
  induction hn : t.size using Nat.strong_induction_on generalizing t with
  | h n ih =>
      by_cases hlength : t.arguments.length ≤ 3
      · exact .unmatched (redex?_eq_none_iff.2 ⟨h.not_hasHeadRedex, hlength⟩)
      obtain ⟨f, a, b, c, d, rfl⟩ := exists_spine_of_length (Nat.lt_of_not_le hlength)
      obtain ⟨-, hinner, hlast⟩ := isNormal_app_iff.1 h
      obtain ⟨-, hspine, -⟩ := isNormal_app_iff.1 hinner
      obtain ⟨-, hhead, -⟩ := isNormal_app_iff.1 hspine
      simp only [size] at hn
      exact .spine (ih _ (by simp only [size]; omega) hhead rfl)
        (ih _ (by simp only [size]; omega) hinner rfl) (ih _ (by omega) hlast rfl)

end Term

/-! ## Guards with other entries -/

namespace Guard

variable {o : Owner} {D : Term → Prop} {g g' h : Guard String} {t : Term}

/-- Two guards hold, for an owner, the same terms but for those of `D`. -/
def AgreesOff (o : Owner) (D : Term → Prop) (g g' : Guard String) : Prop :=
  ∀ u, ¬ D u → (u.script ∈ g.entries o ↔ u.script ∈ g'.entries o)

namespace AgreesOff

theorem refl (o : Owner) (D : Term → Prop) (g : Guard String) : AgreesOff o D g g :=
  fun _ _ => Iff.rfl

theorem symm (h : AgreesOff o D g g') : AgreesOff o D g' g := fun u hu => (h u hu).symm

theorem trans (h₁ : AgreesOff o D g g') (h₂ : AgreesOff o D g' h) : AgreesOff o D g h :=
  fun u hu => (h₁ u hu).trans (h₂ u hu)

/-- Guards that differ in less agree. -/
theorem mono {D' : Term → Prop} (h : AgreesOff o D g g') (hD : ∀ u, D u → D' u) :
    AgreesOff o D' g g' := fun u hu => h u fun hDu => hu (hD u hDu)

end AgreesOff

/-- The commit of a term of `D` adds only that. -/
theorem agreesOff_commit (g : Guard String) (ht : D t) :
    AgreesOff o D g (g.commit o t.script).2 := by
  intro u hu
  have hne : u ≠ t := fun heq => hu (heq ▸ ht)
  rw [mem_entries_commit, Term.script_injective.eq_iff]
  exact (or_iff_right hne).symm

end Guard

/-! ## Normalization of inert terms -/

section

variable {o : Owner} {t r : Term} {g h : Guard String}

/-- What a term comes to leaves everything in the guard. -/
theorem Comes.entries_subset (hc : Comes o t g r h) : g.entries o ⊆ h.entries o := by
  obtain ⟨es, he⟩ := hc
  exact he.entries_subset

/-- **Inert terms come to themselves**, whatever the guard holds, and nothing is committed on
the way but inert terms. -/
theorem Term.Inert.comes (ht : t.Inert) (o : Owner) (g : Guard String) :
    ∃ h, Comes o t g t h ∧ g.AgreesOff o Inert h := by
  induction ht generalizing g with
  | unmatched hred => exact ⟨g, .of_redex?_eq_none o g hred, .refl o Inert g⟩
  | @spine f a b c d head inner last ihhead ihinner ihlast =>
      have hinert : Inert (app (app (app (app f a) b) c) d) := .spine head inner last
      generalize ht : app (app (app (app f a) b) c) d = t at hinert
      -- What is left of the plan after the head has been normalized.
      let rest : Plan Term := .commit fun fresh => .call (app (app (app f a) b) c) fun inner =>
        if fresh then .call (app inner d) .done else .call d fun d' => .done (app inner d')
      have begins : ∀ g k r h, Comes o (app f a) g (app f a) k →
          rest.Comes o t k r h → Comes o t g r h := by
        intro g k r h hhead hrest
        subst ht
        exact .of_redex?_eq_some rfl (Plan.comes_call hhead hrest)
      have repeated : ∀ k, t.script ∈ k.entries o →
          ∃ h, rest.Comes o t k t h ∧ k.AgreesOff o Inert h := by
        intro k hold
        obtain ⟨k₁, hinner, hagree₁⟩ := ihinner k
        obtain ⟨k₂, hlast, hagree₂⟩ := ihlast k₁
        refine ⟨k₂, Plan.comes_commit_old hold (Plan.comes_call hinner
          (Plan.comes_call hlast ?_)), hagree₁.trans hagree₂⟩
        exact ht ▸ Plan.comes_done o _ _ k₂
      obtain ⟨k, hhead, hagree⟩ := ihhead g
      by_cases hold : t.script ∈ k.entries o
      · obtain ⟨h, hrest, hagree'⟩ := repeated k hold
        exact ⟨h, begins g k t h hhead hrest, hagree.trans hagree'⟩
      -- A new spine is normalized once more, and then it has been committed.
      obtain ⟨k₁, hinner, hagree₁⟩ := ihinner (k.commit o t.script).2
      obtain ⟨k₂, hhead₂, hagree₂⟩ := ihhead k₁
      have hold₂ : t.script ∈ k₂.entries o := by
        refine hhead₂.entries_subset (hinner.entries_subset ?_)
        exact (Guard.mem_entries_commit k o t.script t.script).2 (.inl rfl)
      obtain ⟨h, hrest, hagree₃⟩ := repeated k₂ hold₂
      have hagain : Comes o t k₁ t h := begins k₁ k₂ t h hhead₂ hrest
      refine ⟨h, begins g k t h hhead (Plan.comes_commit_new hold (Plan.comes_call hinner
        (Plan.comes_call (ht ▸ hagain) (Plan.comes_done o t t h)))), ?_⟩
      exact hagree.trans ((Guard.agreesOff_commit k hinert).trans
        (hagree₁.trans (hagree₂.trans hagree₃)))

/-- **Normal forms are fixed points.**  Normalization without a limit halts for every term in
which no redex occurs, and returns that term, whatever has been committed to the guard. -/
theorem normal_forms_fixed (hnormal : t.IsNormal) (o : Owner) (g : Guard String) :
    ∃ n s, Evaluation.normalize o n t ⟨g, .unbounded, #[]⟩ = .ok t s := by
  obtain ⟨h, ⟨es, he⟩, -⟩ := hnormal.inert.comes o g
  exact ⟨_, _, he.normalize⟩

/-- Variables applied to one another, four arguments in all, with the whole in the guard and
with a part of it. -/
theorem normal_forms_fixed_of_committed :
    let x := var ⟨"x", rfl⟩
    let inner := app (app (app x x) x) x
    let t := app (app inner x) inner
    let g := (Guard.empty.commit (.thread .main) t.script).2
    let g' := (Guard.empty.commit (.thread .main) (app inner x).script).2
    t.IsNormal ∧
      (∃ n s, Evaluation.normalize (.thread .main) n t ⟨g, .unbounded, #[]⟩ = .ok t s) ∧
      ∃ n s, Evaluation.normalize (.thread .main) n t ⟨g', .unbounded, #[]⟩ = .ok t s := by
  intro x inner t g g'
  have hnormal : t.IsNormal := by
    simp [t, inner, x, isNormal_app_iff, isRedex_iff, head]
  exact ⟨hnormal, normal_forms_fixed hnormal _ g, normal_forms_fixed hnormal _ g'⟩

/-! ## The cost of normal terms -/

/-- What a longer spine comes to takes a firing, and leaves the spine in the guard. -/
theorem Evaluates.of_spine {args : List Term} {es : List Event}
    (he : Evaluates o t g es r h) (hred : t.redex? = some (.nestedHead, args)) :
    0 < firings es ∧ t.script ∈ h.entries o := by
  cases he with
  | normal hnone =>
      rw [hred] at hnone
      cases hnone
  | fire hred' body =>
      rw [hred] at hred'
      cases hred'
      refine ⟨by simp, ?_⟩
      obtain ⟨es₁, u, k, es₂, -, hrest, -⟩ := Plan.yields_call.1 body
      obtain ⟨es₃, hrest, -⟩ := Plan.yields_commit.1 hrest
      exact hrest.entries_subset ((Guard.mem_entries_commit k o _ _).2 (.inl rfl))

namespace Evaluation

/-- A term that a rule applies to is refused by a limit of zero. -/
theorem normalize_of_limit_zero {rule : Rule} {args : List Term}
    (hred : t.redex? = some (rule, args)) (o : Owner) (n : Nat) (g : Guard String) :
    normalize o (n + 1) t ⟨g, .counted (some 0) 0, #[]⟩ =
      .error (.exceeds 0) ⟨g, .counted (some 0) 1, #[]⟩ :=
  normalize_of_le hred (Nat.le_refl 0) o n g #[]

/-- **Normal forms with three arguments or less cost nothing, longer ones do.**  The first are
returned in the state as it is, with whatever budget and guard.  The others are refused by a
limit of zero; without a limit they take a firing at least, and are in the guard afterwards. -/
theorem normal_forms_cost (hnormal : t.IsNormal) (o : Owner) (g : Guard String) :
    (t.arguments.length ≤ 3 → ∀ n s, normalize o (n + 1) t s = .ok t s) ∧
    (4 ≤ t.arguments.length →
      (∀ n, normalize o (n + 1) t ⟨g, .counted (some 0) 0, #[]⟩ =
        .error (.exceeds 0) ⟨g, .counted (some 0) 1, #[]⟩) ∧
      ∃ n k s, normalize o n t ⟨g, .unbounded, #[]⟩ = .ok t s ∧
        s.budget = .counted none (k + 1) ∧ t.script ∈ s.guard.entries o) := by
  constructor
  · intro hfew n s
    exact normalize_of_redex?_eq_none
      (redex?_eq_none_iff.2 ⟨hnormal.not_hasHeadRedex, hfew⟩) o n s
  · intro hmany
    obtain ⟨f, a, b, c, d, rfl⟩ := exists_spine_of_length hmany
    obtain ⟨h, ⟨es, he⟩, -⟩ := hnormal.inert.comes o g
    obtain ⟨hfirings, hmem⟩ := he.of_spine rfl
    obtain ⟨k, hk⟩ := Nat.exists_eq_add_of_lt hfirings
    refine ⟨fun n => normalize_of_limit_zero rfl o n g, _, k, _, he.normalize, ?_, hmem⟩
    simp [hk]

/-- A variable applied to three arguments, which costs nothing even with a limit of zero, and
to four, which is refused by it. -/
theorem normal_forms_cost_of_variable :
    let x := var ⟨"x", rfl⟩
    let t := app (app (app x x) x) x
    let start : Run String := ⟨.empty, .counted (some 0) 0, #[]⟩
    t.IsNormal ∧ normalize (.thread .main) 1 t start = .ok t start ∧
      (app t x).IsNormal ∧ normalize (.thread .main) 1 (app t x) start =
        .error (.exceeds 0) ⟨.empty, .counted (some 0) 1, #[]⟩ := by
  intro x t start
  have hlonger : (app t x).IsNormal := by
    simp [t, x, isNormal_app_iff, isRedex_iff, head]
  have hnormal : t.IsNormal := (isNormal_app_iff.1 hlonger).2.1
  obtain ⟨hfree, -⟩ := normal_forms_cost hnormal (.thread .main) .empty
  obtain ⟨-, hcost⟩ := normal_forms_cost hlonger (.thread .main) .empty
  exact ⟨hnormal, hfree (by decide) 0 start, hlonger, (hcost (by decide)).1 0⟩

/-- **A normal form that costs something**: a variable applied to four arguments.  No redex
occurs in it, but a limit of zero refuses it; without a limit it takes two firings, and is
committed to the guard. -/
theorem not_free_of_four_arguments :
    let x := var ⟨"x", rfl⟩
    let t := app (app (app (app x x) x) x) x
    t.IsNormal ∧
      normalize (.thread .main) 1 t ⟨.empty, .counted (some 0) 0, #[]⟩ =
        .error (.exceeds 0) ⟨.empty, .counted (some 0) 1, #[]⟩ ∧
      ∃ s, normalize (.thread .main) 3 t ⟨.empty, .unbounded, #[]⟩ = .ok t s ∧
        s.budget = .counted none 2 ∧ s.guard.entries (.thread .main) = [t.script] := by
  intro x t
  have hnormal : t.IsNormal := by
    simp [t, x, isNormal_app_iff, isRedex_iff, head]
  let g := (Guard.empty.commit (.thread .main) t.script).2
  have hempty : t.script ∉ (Guard.empty : Guard String).entries (.thread .main) :=
    List.not_mem_nil
  have hmem : t.script ∈ g.entries (.thread .main) :=
    (Guard.mem_entries_commit .empty (.thread .main) _ _).2 (.inl rfl)
  have hagain : Evaluates (.thread .main) t g [.fired .nestedHead t, .fallback t] t g :=
    .fire rfl (.normal rfl (.commit_old hmem (.normal rfl (.normal rfl (.done t t g)))))
  have hrun : Evaluates (.thread .main) t .empty
      [.fired .nestedHead t, .fired .nestedHead t, .fallback t] t g :=
    .fire rfl (.normal rfl (.commit_new hempty (.normal rfl
      (Plan.yields_call.2 ⟨_, t, g, [], hagain, .done t t g, rfl⟩))))
  refine ⟨hnormal, normalize_of_limit_zero rfl _ 0 .empty, _, hrun.normalize, rfl, ?_⟩
  simp [g, Guard.entries_commit]

end Evaluation

end

end Combinatory
