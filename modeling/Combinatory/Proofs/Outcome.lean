import Combinatory.Proofs.Plan

/-!
# Outcomes of evaluations

How the steps that evaluations are made of change the state.  Paying, recording and
committing are described once and completely; sequencing is taken apart by what the
first part comes to.  The state of an outcome is there whether it is a result or a stop
(`Evaluation.last`).

## Main definitions

* `Evaluation.last`, `Evaluation.outcome`: the state in which an evaluation ends, and with
  what it ends.
* `Evaluation.Fired`: the state in which the plan of a rule begins.

## Main results

* `bind_eq_ok`, `bind_eq_error`: outcomes of a sequence.
* `Evaluation.pay_apply`, `Evaluation.record_apply`, `Evaluation.commit_apply`: the steps.
* `Evaluation.fire_eq_ok`, `Evaluation.fire_eq_error`: outcomes of a firing.
-/

namespace Combinatory

/-- A budget fails its check when it has a limit below its count. -/
theorem Budget.check_eq_error_iff {b : Budget} {f : Fault} : b.check = .error f ↔
    ∃ limit, b.limit = some limit ∧ limit.lt b.total = true ∧
      .limitExceeded b.total limit = f := by
  unfold check
  cases b.limit with
  | none => simp
  | some limit => cases h : limit.lt b.total <;> simp [h]

/-! ## Sequences -/

section

variable {ε σ β γ : Type} {x : EStateM ε σ β} {s s' s'' : σ} {b : β} {c : γ} {e : ε}

@[simp] theorem pure_apply (b : β) (s : σ) : (pure b : EStateM ε σ β) s = .ok b s := rfl

@[simp] theorem modifyGet_apply (f : σ → β × σ) (s : σ) :
    (modifyGet f : EStateM ε σ β) s = .ok (f s).1 (f s).2 := rfl

/-- A sequence goes on where its first part ends with a result. -/
theorem bind_of_ok (f : β → EStateM ε σ γ) (h : x s = .ok b s') : (x >>= f) s = f b s' := by
  change EStateM.bind x f s = _
  rw [EStateM.bind, h]

/-- A sequence ends where its first part stops. -/
theorem bind_of_error (f : β → EStateM ε σ γ) (h : x s = .error e s') :
    (x >>= f) s = .error e s' := by
  change EStateM.bind x f s = _
  rw [EStateM.bind, h]

/-- A sequence has a result when both its parts have one. -/
theorem bind_eq_ok {f : β → EStateM ε σ γ} :
    (x >>= f) s = .ok c s'' ↔ ∃ b s', x s = .ok b s' ∧ f b s' = .ok c s'' := by
  cases h : x s with
  | ok b s' => simp [bind_of_ok f h, and_assoc]
  | error e s' => simp [bind_of_error f h]

/-- A sequence stops in one of its parts. -/
theorem bind_eq_error {f : β → EStateM ε σ γ} : (x >>= f) s = .error e s'' ↔
    x s = .error e s'' ∨ ∃ b s', x s = .ok b s' ∧ f b s' = .error e s'' := by
  cases h : x s with
  | ok b s' => simp [bind_of_ok f h, and_assoc]
  | error e' s' => simp [bind_of_error f h]

end

namespace Evaluation

open Term

variable {α β γ : Type}

/-- The state in which an evaluation ends, with a result or without one. -/
def last : EStateM.Result Stop (Run α) β → Run α
  | .ok _ s => s
  | .error _ s => s

/-- What an evaluation ends with: a result, or the reason why there is none. -/
def outcome : EStateM.Result Stop (Run α) β → Except Stop β
  | .ok b _ => .ok b
  | .error e _ => .error e

@[simp] theorem last_ok (b : β) (s : Run α) :
    last (.ok b s : EStateM.Result Stop (Run α) β) = s := rfl

@[simp] theorem last_error (e : Stop) (s : Run α) :
    last (.error e s : EStateM.Result Stop (Run α) β) = s := rfl

theorem outcome_eq_ok {result : EStateM.Result Stop (Run α) β} {b : β} :
    outcome result = .ok b ↔ ∃ s, result = .ok b s := by
  cases result <;> simp [outcome]

theorem outcome_eq_error {result : EStateM.Result Stop (Run α) β} {e : Stop} :
    outcome result = .error e ↔ ∃ s, result = .error e s := by
  cases result <;> simp [outcome]

/-! ## Steps -/

/-- Recording puts an event at the end of the trace. -/
theorem record_apply (e : Event) (s : Run α) :
    record e s = .ok () { s with trace := s.trace.push e } := rfl

/-- Paying counts a step, and stops if the budget does not allow it. -/
theorem pay_apply (s : Run α) :
    pay s = match (s.budget.spend .one).check with
      | .ok () => .ok () { s with budget := s.budget.spend .one }
      | .error f => .error (.fault f) { s with budget := s.budget.spend .one } := by
  have h : pay s = lift (s.budget.spend .one).check
      { s with budget := s.budget.spend .one } := rfl
  rw [h]
  cases (s.budget.spend .one).check <;> rfl

/-- Paying changes the count and nothing else, also where it stops. -/
@[simp] theorem last_pay (s : Run α) :
    last (pay s) = { s with budget := s.budget.spend .one } := by
  rw [pay_apply]
  cases (s.budget.spend .one).check <;> rfl

/-- What is paid has been counted. -/
theorem eq_of_pay {s s' : Run α} (h : pay s = .ok () s') :
    s' = { s with budget := s.budget.spend .one } := by
  rw [← last_pay, h, last_ok]

/-- Committing changes the guard; if the redex was there, the trace says so. -/
theorem commit_apply [DecidableEq α] (o : Owner) (entry : Term → α) (t : Term) (s : Run α) :
    commit o entry t s =
      .ok (s.guard.commit o (entry t)).1
        { s with
          guard := (s.guard.commit o (entry t)).2
          trace := if (s.guard.commit o (entry t)).1 then s.trace
            else s.trace.push (.fallback t) } := by
  have h : enter o (entry t) s = .ok (s.guard.commit o (entry t)).1
      { s with guard := (s.guard.commit o (entry t)).2 } := rfl
  rw [commit, bind_of_ok _ h]
  cases (s.guard.commit o (entry t)).1 <;> rfl

/-- Committing never stops. -/
theorem commit_ne_error [DecidableEq α] (o : Owner) (entry : Term → α) (t : Term)
    (s : Run α) (e : Stop) (s' : Run α) : commit o entry t s ≠ .error e s' := by
  rw [commit_apply]
  exact fun h => nomatch h

/-! ## Firings -/

section

variable [DecidableEq α] {o : Owner} {entry : Term → α} {normalize : Term → Evaluation α Term}
  {t r : Term} {rule : Rule} {args : List Term} {s s' : Run α} {e : Stop}

/-- The state in which the plan of a rule begins, after the firing has been paid. -/
def Fired (rule : Rule) (t : Term) (s s₁ : Run α) : Prop :=
  ∃ s₀, pay s = .ok () s₀ ∧ s₁ = { s₀ with trace := s₀.trace.push (.fired rule t) }

/-- A firing has the result of its plan. -/
theorem fire_eq_ok : fire o entry normalize t rule args s = .ok r s' ↔
    ∃ s₁, Fired rule t s s₁ ∧
      (rule.plan (argument args)).run normalize (commit o entry t) s₁ = .ok r s' := by
  constructor
  · intro h
    obtain ⟨_, s₀, hpay, h⟩ := bind_eq_ok.1 h
    obtain ⟨_, s₁, hrec, h⟩ := bind_eq_ok.1 h
    rw [record_apply] at hrec
    cases hrec
    exact ⟨_, ⟨s₀, hpay, rfl⟩, h⟩
  · rintro ⟨s₁, ⟨s₀, hpay, rfl⟩, h⟩
    exact bind_eq_ok.2 ⟨_, s₀, hpay, bind_eq_ok.2 ⟨_, _, record_apply _ s₀, h⟩⟩

/-- A firing stops where it is paid for, or where its plan does. -/
theorem fire_eq_error : fire o entry normalize t rule args s = .error e s' ↔
    pay s = .error e s' ∨ ∃ s₁, Fired rule t s s₁ ∧
      (rule.plan (argument args)).run normalize (commit o entry t) s₁ = .error e s' := by
  constructor
  · intro h
    rcases bind_eq_error.1 h with hpay | ⟨_, s₀, hpay, h⟩
    · exact .inl hpay
    rcases bind_eq_error.1 h with hrec | ⟨_, s₁, hrec, h⟩
    · cases hrec
    rw [record_apply] at hrec
    cases hrec
    exact .inr ⟨_, ⟨s₀, hpay, rfl⟩, h⟩
  · rintro (hpay | ⟨s₁, ⟨s₀, hpay, rfl⟩, h⟩)
    · exact bind_eq_error.2 (.inl hpay)
    · exact bind_eq_error.2 (.inr ⟨_, s₀, hpay,
        bind_eq_error.2 (.inr ⟨_, _, record_apply _ s₀, h⟩)⟩)

end

end Evaluation

end Combinatory
