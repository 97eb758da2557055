import Combinatory.Proofs.Termination

/-!
# Runs in step

Two computations run in step when, from related states, both return the same or both stop for
the same reason, in states that are related again.  For engines this comes down to the steps
they are made of: paying, recording, and committing (`Evaluation.Coupling`).  Commits have to
be in step only for the redexes that are reached, and these lie on the way down from the term
that is normalized.

Where the states differ in their guards only, nothing but the commits is left to look at
(`Evaluation.coupling_of_guards`).  A property of single runs is a relation, too, between a
state and itself.

## Main definitions

* `Evaluation.Paired`, `Evaluation.InStep`: results, and computations, in step.
* `Evaluation.Coupling`: what makes two engines run in step.
* `Evaluation.Agree`: states that differ in their guards only.

## Main results

* `Evaluation.Coupling.normalizeBy`: coupled engines run in step.
* `Evaluation.coupling_of_guards`: engines are coupled if their commits are.
-/

namespace Combinatory

namespace Evaluation

open Term

variable {α α' β γ : Type}

/-- The same result, or the same stop for one of the reasons allowed, in related states. -/
inductive Paired (R : Run α → Run α' → Prop) (allowed : Stop → Prop) :
    EStateM.Result Stop (Run α) β → EStateM.Result Stop (Run α') β → Prop
  | ok (b : β) {s : Run α} {s' : Run α'} (h : R s s') : Paired R allowed (.ok b s) (.ok b s')
  | error {e : Stop} {s : Run α} {s' : Run α'} (he : allowed e) (h : R s s') :
      Paired R allowed (.error e s) (.error e s')

/-- Computations that come to paired results from related states. -/
def InStep (R : Run α → Run α' → Prop) (allowed : Stop → Prop) (x : Evaluation α β)
    (x' : Evaluation α' β) : Prop :=
  ∀ s s', R s s' → Paired R allowed (x s) (x' s')

section

variable {R : Run α → Run α' → Prop} {allowed : Stop → Prop}

namespace Paired

variable {result : EStateM.Result Stop (Run α) β} {result' : EStateM.Result Stop (Run α') β}

theorem outcome_eq (h : Paired R allowed result result') : outcome result = outcome result' := by
  cases h <;> rfl

theorem related (h : Paired R allowed result result') : R (last result) (last result') := by
  cases h with
  | ok _ h => exact h
  | error _ h => exact h

theorem allowed_of_error {e : Stop} {s : Run α} (h : Paired R allowed (.error e s) result') :
    allowed e := by
  cases h with
  | error he _ => exact he

end Paired

theorem inStep_pure (b : β) : InStep R allowed (pure b) (pure b) := fun _ _ h => .ok b h

theorem inStep_throw {e : Stop} (he : allowed e) :
    InStep R allowed (throw e : Evaluation α β) (throw e) :=
  fun _ _ h => .error he h

/-- Sequences are in step if their parts are; the second part need be only for what the first
may return. -/
theorem InStep.bind {x : Evaluation α β} {x' : Evaluation α' β} {f : β → Evaluation α γ}
    {f' : β → Evaluation α' γ} (hx : InStep R allowed x x')
    (hf : ∀ s b s₁, x s = .ok b s₁ → InStep R allowed (f b) (f' b)) :
    InStep R allowed (x >>= f) (x' >>= f') := by
  intro s s' h
  have hpair := hx s s' h
  generalize hrun : x s = result at hpair
  generalize hrun' : x' s' = result' at hpair
  cases hpair with
  | ok b h₁ =>
      rw [bind_of_ok f hrun, bind_of_ok f' hrun']
      exact hf s b _ hrun _ _ h₁
  | error he h₁ =>
      rw [bind_of_error f hrun, bind_of_error f' hrun']
      exact .error he h₁

/-- The runs of a plan are in step if its commits are, and those calls that are demanded. -/
theorem inStep_run {returns : Term → Term → Prop} {demand : Option Bool → Term → Prop}
    {normalize : Term → Evaluation α Term} {normalize' : Term → Evaluation α' Term}
    {register : Evaluation α Bool} {register' : Evaluation α' Bool}
    (hcall : ∀ fresh t, demand fresh t → InStep R allowed (normalize t) (normalize' t))
    (hreturns : ∀ t s r s', normalize t s = .ok r s' → returns t r)
    (hcommit : InStep R allowed register register') {p : Plan β} {fresh : Option Bool}
    (hp : p.Demands returns demand fresh) :
    InStep R allowed (p.run normalize register) (p.run normalize' register') := by
  induction p generalizing fresh with
  | done b => exact inStep_pure b
  | call t next ih =>
      refine (hcall fresh t hp.1).bind fun s r s₁ hr => ih r (hp.2 r ?_)
      exact hreturns t s r s₁ hr
  | commit next ih => exact hcommit.bind fun _ fresh' _ _ => ih fresh' (hp fresh')

/-! ## Engines -/

section

variable [DecidableEq α] [DecidableEq α']

/-- What makes the engines for two ways to enter redexes run in step on the terms of `P`. -/
structure Coupling (R : Run α → Run α' → Prop) (allowed : Stop → Prop) (o : Owner)
    (entry : Term → α) (entry' : Term → α') (P : Term → Prop) : Prop where
  /-- Terms of `P` lead down to terms of `P`. -/
  down : ∀ t u, P t → Descends t u → P u
  deep : allowed .tooDeep
  pay : InStep R allowed pay pay
  record : ∀ e, InStep R allowed (record e) (record e)
  commit : ∀ t, P t → t.isAtom = false →
    InStep R allowed (commit o entry t) (commit o entry' t)

variable {o : Owner} {entry : Term → α} {entry' : Term → α'} {P : Term → Prop}

/-- **Coupled engines run in step**, on all terms of `P`. -/
theorem Coupling.normalizeBy (h : Coupling R allowed o entry entry' P) (n : Nat) (t : Term)
    (ht : P t) :
    InStep R allowed (normalizeBy o entry n t) (Evaluation.normalizeBy o entry' n t) := by
  induction n generalizing t with
  | zero => exact inStep_throw h.deep
  | succ n ih =>
      cases hred : t.redex? with
      | none =>
          rw [normalizeBy_of_none n hred, normalizeBy_of_none n hred]
          exact inStep_pure t
      | some found =>
          obtain ⟨rule, args⟩ := found
          have happ : t.isAtom = false := by
            cases hatom : t.isAtom with
            | false => rfl
            | true => cases (redex?_of_isAtom hatom).symm.trans hred
          have hcall : ∀ fresh u, DescendsOrRepeats t fresh u →
              InStep R allowed (Evaluation.normalizeBy o entry n u)
                (Evaluation.normalizeBy o entry' n u) :=
            fun _ u hu => ih u (hu.of_closed h.down ht)
          rw [normalizeBy_of_some n hred, normalizeBy_of_some n hred]
          exact h.pay.bind fun _ _ _ _ => (h.record _).bind fun _ _ _ _ =>
            inStep_run hcall (fun _ _ _ _ => steps_of_normalizeBy) (h.commit t ht happ)
              (demands_of_redex? hred)

end

end

/-! ## States that differ in their guards -/

/-- States with the same budget and the same trace, whose guards are related. -/
structure Agree (G : Guard α → Guard α' → Prop) (s : Run α) (s' : Run α') : Prop where
  budget : s.budget = s'.budget
  trace : s.trace = s'.trace
  guard : G s.guard s'.guard

section

variable {G : Guard α → Guard α' → Prop}

theorem Agree.inStep_pay : InStep (Agree G) (fun _ => True) pay pay := by
  intro s s' h
  have hspent : Agree G { s with budget := s.budget.spend .one }
      { s' with budget := s'.budget.spend .one } :=
    ⟨congrArg (Budget.spend · .one) h.budget, h.trace, h.guard⟩
  rw [pay_apply, pay_apply, ← h.budget] at *
  cases (s.budget.spend .one).check with
  | ok _ => exact .ok () hspent
  | error f => exact .error trivial hspent

theorem Agree.inStep_record (e : Event) :
    InStep (Agree G) (fun _ => True) (record e) (record e) := by
  intro s s' h
  rw [record_apply, record_apply]
  exact .ok () ⟨h.budget, congrArg (·.push e) h.trace, h.guard⟩

variable [DecidableEq α] [DecidableEq α'] {o : Owner} {entry : Term → α} {entry' : Term → α'}
  {P : Term → Prop}

/-- **Engines are coupled if their commits are**: commits to guards that are related have the
same answer and lead to guards that are related. -/
theorem coupling_of_guards (down : ∀ t u, P t → Descends t u → P u)
    (hcommit : ∀ t, P t → t.isAtom = false → ∀ g g', G g g' →
      (g.commit o (entry t)).1 = (g'.commit o (entry' t)).1 ∧
        G (g.commit o (entry t)).2 (g'.commit o (entry' t)).2) :
    Coupling (Agree G) (fun _ => True) o entry entry' P where
  down := down
  deep := trivial
  pay := Agree.inStep_pay
  record := Agree.inStep_record
  commit := by
    intro t ht happ s s' h
    obtain ⟨hfresh, hguard⟩ := hcommit t ht happ _ _ h.guard
    rw [commit_apply, commit_apply, ← hfresh, ← h.trace]
    exact .ok _ ⟨h.budget, rfl, hguard⟩

end

/-! ## States of one run -/

/-- A computation is in step with itself where it keeps a property of states and stops for
allowed reasons only. -/
theorem inStep_self_iff {I : Run α → Prop} {allowed : Stop → Prop} {x : Evaluation α β} :
    InStep (fun s s' => s = s' ∧ I s) allowed x x ↔
      ∀ s, I s → I (last (x s)) ∧ ∀ e s', x s = .error e s' → allowed e := by
  constructor
  · intro h s hs
    have hpair := h s s ⟨rfl, hs⟩
    refine ⟨hpair.related.2, fun e s' hrun => ?_⟩
    rw [hrun] at hpair
    exact hpair.allowed_of_error
  · rintro h s _ ⟨rfl, hs⟩
    obtain ⟨hlast, hstop⟩ := h s hs
    cases hrun : x s with
    | ok b s' => exact .ok b ⟨rfl, by simpa [hrun] using hlast⟩
    | error e s' => exact .error (hstop e s' hrun) ⟨rfl, by simpa [hrun] using hlast⟩

end Evaluation

end Combinatory
