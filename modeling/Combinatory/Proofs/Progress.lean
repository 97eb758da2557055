import Combinatory.Proofs.Agreement
import Combinatory.Proofs.Reference
import Mathlib.Data.List.Basic

/-!
# Progress

A guard makes an evaluation stop early, but never before the redex at the head of the term
has been contracted.  The head redex of a spine with four arguments or more is met by one of
the two calls with which the nested head begins: by the first if it belongs to the nested head
itself, and by the second if it takes some of the last arguments, because then no rule applies
to the nested head, which comes back as it is.  By induction on the nesting, one of the calls
below contracts it, whatever the guard answers.

## Main definitions

* `Primitive.arity`: the arguments that a primitive takes.
* `Term.HasHeadRedex`: there is a redex on the left spine.
* `Advances`: what normalization makes of a term.

## Main results

* `Term.hasHeadRedex_iff`: a head redex is a head with all the arguments that it takes.
* `Evaluation.advances_of_normalizeBy`: normalization contracts head redexes.
* `progress_of_head`: results are reached by one contraction at least.
-/

namespace Combinatory

open Relation Term

/-- The number of arguments that a primitive takes to make a redex. -/
def Primitive.arity : Primitive → Nat
  | S => 3
  | K => 2
  | I => 1

/-! ## Head redexes -/

namespace Term

variable {t l r : Term}

/-- There is a redex on the left spine of a term. -/
inductive HasHeadRedex : Term → Prop
  | root {t : Term} (h : IsRedex t) : HasHeadRedex t
  | left {l : Term} (r : Term) (h : HasHeadRedex l) : HasHeadRedex (app l r)

theorem hasHeadRedex_app_iff :
    (app l r).HasHeadRedex ↔ IsRedex (app l r) ∨ l.HasHeadRedex := by
  constructor
  · intro h
    cases h with
    | root h => exact .inl h
    | left _ h => exact .inr h
  · rintro (h | h)
    · exact .root h
    · exact .left r h

/-- **A redex is a primitive with the arguments that it takes**, and no more of them. -/
theorem isRedex_iff :
    t.IsRedex ↔ ∃ p, t.head = prim p ∧ t.arguments.length = p.arity := by
  constructor
  · rintro ⟨u, h⟩
    cases h with
    | identity a => exact ⟨.I, rfl, rfl⟩
    | constant a b => exact ⟨.K, rfl, rfl⟩
    | substitution a b c => exact ⟨.S, rfl, rfl⟩
  · rintro ⟨p, hhead, hlength⟩
    have hspine : (prim p).applyAll t.arguments = t := hhead ▸ applyAll_head_arguments t
    rw [← hspine]
    cases p with
    | S =>
        obtain ⟨a, b, c, hargs⟩ := List.length_eq_three.1 hlength
        exact hargs ▸ ⟨_, .substitution a b c⟩
    | K =>
        obtain ⟨a, b, hargs⟩ := List.length_eq_two.1 hlength
        exact hargs ▸ ⟨_, .constant a b⟩
    | I =>
        obtain ⟨a, hargs⟩ := List.length_eq_one_iff.1 hlength
        exact hargs ▸ ⟨_, .identity a⟩

/-- **A term has a head redex when its head has all the arguments that it takes**, or more
of them. -/
theorem hasHeadRedex_iff :
    t.HasHeadRedex ↔ ∃ p, t.head = prim p ∧ p.arity ≤ t.arguments.length := by
  induction t with
  | app l r ihl ihr =>
      rw [hasHeadRedex_app_iff, isRedex_iff, ihl, length_arguments_app, ← exists_or]
      refine exists_congr fun p => and_or_left.symm.trans (and_congr_right fun _ => ?_)
      omega
  | prim q =>
      constructor
      · rintro ⟨⟨u, h⟩⟩
        cases h
      · rintro ⟨p, -, h⟩
        cases p <;> cases h
  | var x =>
      constructor
      · rintro ⟨⟨u, h⟩⟩
        cases h
      · rintro ⟨p, h, -⟩
        cases h

/-- **No rule applies to a term exactly when it has no head redex and no more than three
arguments.** -/
theorem redex?_eq_none_iff :
    t.redex? = none ↔ ¬ t.HasHeadRedex ∧ t.arguments.length ≤ 3 := by
  rw [hasHeadRedex_iff, ← select_eq, select]
  split
  case h_7 hlength => simp [hlength]
  case h_8 hlong hI₁ hI₂ hK₂ hI₃ hK₃ hS₃ =>
    have hlength : t.arguments.length ≤ 3 := by
      by_contra hmore
      exact hlong (t.arguments.length - 4) (by omega)
    refine iff_of_true rfl ⟨?_, hlength⟩
    rintro ⟨p, hhead, harity⟩
    cases p with
    | S => exact hS₃ hhead (Nat.le_antisymm hlength harity)
    | K =>
        change 2 ≤ _ at harity
        have : t.arguments.length ≠ 2 := hK₂ hhead
        have : t.arguments.length ≠ 3 := hK₃ hhead
        omega
    | I =>
        change 1 ≤ _ at harity
        have : t.arguments.length ≠ 1 := hI₁ hhead
        have : t.arguments.length ≠ 2 := hI₂ hhead
        have : t.arguments.length ≠ 3 := hI₃ hhead
        omega
  -- In the other cases the head has its arguments.
  all_goals
    rename_i hhead hlength
    exact iff_of_false (Option.some_ne_none _) fun h => h.1 ⟨_, hhead, hlength ▸ (by decide)⟩

/-- The head redex of a longer spine belongs to the nested head, or no rule applies to that
and it belongs to the spine without the last argument. -/
theorem HasHeadRedex.nested {h a b c d : Term}
    (hspine : (app (app (app (app h a) b) c) d).HasHeadRedex) :
    (app h a).HasHeadRedex ∨
      (app h a).redex? = none ∧ (app (app (app h a) b) c).HasHeadRedex := by
  by_cases hnested : (app h a).HasHeadRedex
  · exact .inl hnested
  obtain ⟨p, hhead, -⟩ := hasHeadRedex_iff.1 hspine
  have hfew : (app h a).arguments.length < p.arity := by
    by_contra hmany
    exact hnested (hasHeadRedex_iff.2 ⟨p, hhead, Nat.le_of_not_lt hmany⟩)
  have harity : p.arity ≤ 3 := by cases p <;> decide
  refine .inr ⟨redex?_eq_none_iff.2 ⟨hnested, by omega⟩, hasHeadRedex_iff.2 ⟨p, hhead, ?_⟩⟩
  simp only [length_arguments_app] at hfew ⊢
  omega

end Term

/-! ## Normalization contracts head redexes -/

/-- What normalization makes of a term: it contracts the head redex, if there is one, and
keeps a term that no rule applies to. -/
structure Advances (t r : Term) : Prop where
  steps : Steps t r
  contracts : t.HasHeadRedex → TransGen Step t r
  keeps : t.redex? = none → r = t

/-- The plan of a longer spine leads to the contraction of its head redex, if calls advance
what they are made for. -/
theorem Rule.nestedHead_plan_ensures {h a b c d : Term}
    (hhead : (app (app (app (app h a) b) c) d).HasHeadRedex) :
    (nestedHead.plan (argument [app h a, b, c, d])).Ensures Advances
      (TransGen Step (app (app (app (app h a) b) c) d)) := by
  intro u hu fresh inner hinner
  have hspine : TransGen Step (app (app (app h a) b) c) inner := by
    rcases hhead.nested with hnested | ⟨hnone, hrest⟩
    · have hadvance : TransGen Step (app (app (app h a) b) c) (app (app u b) c) :=
        (hu.contracts hnested).lift (fun v => app (app v b) c) fun _ _ hs => .left _ (.left _ hs)
      exact hadvance.trans_left hinner.steps
    · obtain rfl := hu.keeps hnone
      exact hinner.contracts hrest
  have hwhole : TransGen Step (app (app (app (app h a) b) c) d) (app inner d) :=
    hspine.lift (fun v => app v d) fun _ _ hs => .left _ hs
  cases fresh with
  | false =>
      intro v hv
      exact hwhole.trans_left (hv.steps.right _)
  | true =>
      intro r hr
      exact hwhole.trans_left hr.steps

section

variable {t r : Term} {rule : Rule} {args : List Term}

/-- The plan of a rule leads to the contraction of the head redex, if calls advance what
they are made for. -/
theorem Rule.plan_ensures_contraction (hred : t.redex? = some (rule, args))
    (hhead : t.HasHeadRedex) :
    (rule.plan (argument args)).Ensures Advances (TransGen Step t) := by
  by_cases hnested : rule = .nestedHead
  · subst hnested
    obtain ⟨h, a, b, c, d, rfl, rfl⟩ := exists_spine_of_redex? hred
    exact nestedHead_plan_ensures hhead
  have hpair : rule ≠ .pair := fun heq => redex?_ne_pair (heq ▸ hred)
  have hstep := step_contractum (argument args) hpair hnested
  rw [fill_of_redex? hred] at hstep
  exact (plan_ensures_steps_contractum (argument args) rule).mono (fun _ _ h => h.steps)
    fun _ h => TransGen.head' hstep h

namespace Evaluation

/-- **Normalization contracts head redexes**, whatever the guard and the budget are. -/
theorem advances_of_normalizeBy {α : Type} [DecidableEq α] {o : Owner} {entry : Term → α}
    {nesting : Nat} {s s' : Run α} (h : normalizeBy o entry nesting t s = .ok r s') :
    Advances t r := by
  refine normalizeBy_induction (P := fun t x => ∀ s r s', x s = .ok r s' → Advances t r)
    ?_ ?_ ?_ nesting t s r s' h
  · intro t s r s' h
    cases h
  · intro t hred s r s' h
    cases h
    exact ⟨.refl, fun hhead => absurd hhead (redex?_eq_none_iff.1 hred).1, fun _ => rfl⟩
  · intro normalize calls t rule args hred s r s' h
    obtain ⟨s₁, -, hrun⟩ := fire_eq_ok.1 h
    have hsteps : Steps t r := by
      rw [← fill_of_redex? hred]
      exact ((rule.plan_ensures_steps (argument args)).mono (fun _ _ h => h.steps)
        fun _ h => h).of_run calls hrun
    refine ⟨hsteps, fun hhead => ?_, fun hnone => ?_⟩
    · exact (Rule.plan_ensures_contraction hred hhead).of_run calls hrun
    · rw [hred] at hnone
      cases hnone

end Evaluation

/-- **The head redex is contracted.**  If the head of a term has all the arguments that it
takes, every result of the term, with whatever guard and budget it was found, is reached by
at least one contraction; so it is another term, unless the term reduces to itself by at
least one. -/
theorem progress_of_head {p : Primitive} (hhead : t.head = prim p)
    (hargs : p.arity ≤ t.arguments.length) (h : Returns t r) :
    TransGen Step t r ∧ (¬ TransGen Step t t → r ≠ t) := by
  obtain ⟨o, nesting, s, s', hrun⟩ := h.exists_run
  rw [Evaluation.normalize_eq] at hrun
  have hsteps : TransGen Step t r :=
    (Evaluation.advances_of_normalizeBy hrun).contracts (hasHeadRedex_iff.2 ⟨p, hhead, hargs⟩)
  refine ⟨hsteps, fun hself => ?_⟩
  rintro rfl
  exact hself hsteps

/-- A longer spine that was committed before is not normalized again as a whole, but it is
contracted: `K K I S (I K)` comes to `K S K`. -/
theorem progress_of_head_of_committed :
    let t := app (app (app (app K K) I) S) (app I K)
    let r := app (app K S) K
    Primitive.K.arity ≤ t.arguments.length ∧ Returns t r ∧ TransGen Step t r := by
  intro t r
  have hreturns : Returns t r := by
    let g := (Guard.empty.commit (.thread .main) t.script).2
    have hmem : t.script ∈ g.entries (.thread .main) := by
      rw [Guard.mem_entries_commit]
      exact .inl rfl
    exact Evaluates.returns (.fire rfl (.normal rfl (.commit_old hmem
      (.fire rfl (.normal rfl (.done _ _ g)) (.fire rfl (.done _ K g) (.done t r g))))))
  exact ⟨by decide, hreturns, (progress_of_head rfl (by decide) hreturns).1⟩

end

end Combinatory
