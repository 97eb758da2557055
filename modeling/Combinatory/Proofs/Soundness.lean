import Combinatory.Proofs.CallGraph
import Combinatory.Proofs.Confluence

/-!
# Soundness of evaluation

Whatever the guard holds, an evaluation only reduces: its result is a reduct of the term
it was asked for.  Every plan is checked once, with both answers of the guard, on the
assumption that calls return reducts; an induction on the nesting of the calls then
removes the assumption.

## Main results

* `Rule.step_contractum`, `Rule.plan_ensures_steps`: each rule contracts the head of what its
  template stands for, if it contracts anything, and reduces it.
* `Evaluation.steps_of_normalizeBy`: results are reducts.
* `Evaluation.stop_of_normalizeBy`: evaluations stop for a limit or for their nesting only.
* `Evaluation.exists_returnsBy_iff`: a rule by itself returns if its calls halt.
* `Evaluation.results_are_reducts`: the same for normalization, reduction and single
  rules, as they compare texts.
-/

namespace Combinatory

open Term

/-! ## Single rules -/

namespace Rule

variable (arg : Nat → Term)

/-- What a rule contracts its redex to before it does anything else.  The last two rules
only have parts of theirs normalized. -/
def contractum : Rule → Term
  | identity | constant => arg 1
  | identityApplied => app (arg 1) (arg 2)
  | identityAppliedTwice => app (app (arg 1) (arg 2)) (arg 3)
  | constantApplied => app (arg 1) (arg 3)
  | substitution => app (app (arg 1) (arg 3)) (app (arg 2) (arg 3))
  | pair => app (app (arg 1) (arg 2)) (app (arg 3) (arg 4))
  | nestedHead => app (app (app (arg 1) (arg 2)) (arg 3)) (arg 4)

/-- All rules but the last two contract the head of what their template stands for. -/
theorem step_contractum {rule : Rule} (hpair : rule ≠ .pair) (hnested : rule ≠ .nestedHead) :
    Step (rule.pattern.fill arg) (rule.contractum arg) := by
  cases rule with
  | identity => exact .root (.identity _)
  | identityApplied => exact .left _ (.root (.identity _))
  | constant => exact .root (.constant _ _)
  | identityAppliedTwice => exact .left _ (.left _ (.root (.identity _)))
  | constantApplied => exact .left _ (.root (.constant _ _))
  | substitution => exact .root (.substitution _ _ _)
  | pair => exact absurd rfl hpair
  | nestedHead => exact absurd rfl hnested

/-- What the template of a rule stands for reduces to what the rule contracts it to. -/
theorem steps_contractum (rule : Rule) :
    Steps (rule.pattern.fill arg) (rule.contractum arg) := by
  by_cases hpair : rule = .pair
  · subst hpair
    exact .refl
  by_cases hnested : rule = .nestedHead
  · subst hnested
    exact .refl
  exact .single (step_contractum arg hpair hnested)

/-- After its contraction, each rule reduces, as far as its calls return reducts, and
whatever the guard answers. -/
theorem plan_ensures_steps_contractum (rule : Rule) :
    (rule.plan arg).Ensures Steps (Steps (rule.contractum arg)) := by
  cases rule with
  | identity => exact .refl
  | identityApplied =>
      intro fresh a ha b hb
      have parts : Steps (app (arg 1) (arg 2)) (app a b) := ha.congr_app hb
      cases fresh with
      | false => exact parts
      | true =>
          intro r hr
          exact parts.trans hr
  | constant => exact .refl
  | identityAppliedTwice =>
      intro fresh a ha
      cases fresh with
      | false => exact (ha.left _).left _
      | true =>
          intro b hb head hhead c hc r hr
          have spine : Steps (app (app (arg 1) (arg 2)) (arg 3)) (app head c) :=
            Steps.congr_app ((ha.congr_app hb).trans hhead) hc
          exact spine.trans hr
  | constantApplied =>
      intro r hr
      exact hr
  | substitution =>
      intro fresh
      cases fresh with
      | false =>
          intro r hr
          exact hr
      | true =>
          intro left hleft right hright r hr
          exact (hleft.congr_app hright).trans hr
  | pair =>
      intro left hleft right hright r hr
      exact (hleft.congr_app hright).trans hr
  | nestedHead =>
      intro a ha fresh inner hinner
      have spine : Steps (app (app (arg 1) (arg 2)) (arg 3)) inner :=
        ((ha.left _).left _).trans hinner
      cases fresh with
      | false =>
          intro d hd
          exact spine.congr_app hd
      | true =>
          intro r hr
          exact (spine.left _).trans hr

/-- **Each rule reduces what its template stands for**, as far as its calls return
reducts, and whatever the guard answers. -/
theorem plan_ensures_steps (rule : Rule) :
    (rule.plan arg).Ensures Steps (Steps (rule.pattern.fill arg)) :=
  (rule.plan_ensures_steps_contractum arg).mono (fun _ _ h => h) fun _ h =>
    (rule.steps_contractum arg).trans h

end Rule

/-! ## Runs -/

namespace Plan

variable {α β : Type} {normalize : Term → Evaluation α Term} {register : Evaluation α Bool}

/-- What a plan ensures holds of its result, if what is assumed of calls holds of their
results. -/
theorem Ensures.of_run {returns : Term → Term → Prop} {post : β → Prop}
    (hcall : ∀ t s r s', normalize t s = .ok r s' → returns t r) {p : Plan β}
    (hp : p.Ensures returns post) {s s' : Run α} {b : β}
    (h : p.run normalize register s = .ok b s') : post b := by
  induction p generalizing s with
  | done b' =>
      cases h
      exact hp
  | call t next ih =>
      obtain ⟨r, s₁, hr, h⟩ := bind_eq_ok.1 h
      exact ih r (hp r (hcall t s r s₁ hr)) h
  | commit next ih =>
      obtain ⟨fresh, s₁, -, h⟩ := bind_eq_ok.1 h
      exact ih fresh (hp fresh) h

/-- A plan stops only as its calls do, if commits do not stop. -/
theorem stop_of_run {P : Stop → Prop} (hcall : ∀ t s e s', normalize t s = .error e s' → P e)
    (hcommit : ∀ s e s', register s ≠ .error e s') {p : Plan β} {s s' : Run α} {e : Stop}
    (h : p.run normalize register s = .error e s') : P e := by
  induction p generalizing s with
  | done b => cases h
  | call t next ih =>
      rcases bind_eq_error.1 h with h | ⟨r, s₁, -, h⟩
      · exact hcall t s e s' h
      · exact ih r h
  | commit next ih =>
      rcases bind_eq_error.1 h with h | ⟨fresh, s₁, -, h⟩
      · exact absurd h (hcommit s e s')
      · exact ih fresh h

end Plan

namespace Evaluation

/-- What can end an evaluation without a result: its nesting is used up, or it fired more
rules than its limit allows. -/
def IsExhaustion (e : Stop) : Prop :=
  e = .tooDeep ∨ ∃ total limit, e = .fault (.limitExceeded total limit)

/-- Paying stops only for a limit. -/
theorem stop_of_pay {α : Type} {s s' : Run α} {e : Stop} (h : pay s = .error e s') :
    IsExhaustion e := by
  rw [pay_apply] at h
  cases hcheck : (s.budget.spend .one).check with
  | ok _ =>
      rw [hcheck] at h
      cases h
  | error f =>
      rw [hcheck] at h
      cases h
      obtain ⟨limit, -, -, rfl⟩ := Budget.check_eq_error_iff.1 hcheck
      exact .inr ⟨_, _, rfl⟩

section

variable {α : Type} [DecidableEq α] {o : Owner} {entry : Term → α} {s s' : Run α} {t r : Term}

/-- **Results are reducts**, whatever the guard and the budget are. -/
theorem steps_of_normalizeBy {nesting : Nat}
    (h : normalizeBy o entry nesting t s = .ok r s') : Steps t r := by
  refine normalizeBy_induction (P := fun t x => ∀ s r s', x s = .ok r s' → Steps t r)
    ?_ ?_ ?_ nesting t s r s' h
  · intro t s r s' h
    cases h
  · intro t _ s r s' h
    cases h
    exact .refl
  · intro normalize calls t rule args hred s r s' h
    obtain ⟨s₁, -, hrun⟩ := fire_eq_ok.1 h
    rw [← fill_of_redex? hred]
    exact (rule.plan_ensures_steps (argument args)).of_run calls hrun

/-- Evaluations stop for a limit or for their nesting only. -/
theorem stop_of_normalizeBy {nesting : Nat} {e : Stop}
    (h : normalizeBy o entry nesting t s = .error e s') : IsExhaustion e := by
  refine normalizeBy_induction
    (P := fun _ x => ∀ s e s', x s = .error e s' → IsExhaustion e) ?_ ?_ ?_ nesting t s e s' h
  · intro t s e s' h
    cases h
    exact .inl rfl
  · intro t _ s e s' h
    cases h
  · intro normalize calls t rule args _ s e s' h
    rcases fire_eq_error.1 h with hpay | ⟨s₁, -, hrun⟩
    · exact stop_of_pay hpay
    · exact Plan.stop_of_run calls (commit_ne_error o entry t) hrun

end

/-- Reduction does what normalization does, except that it refuses atoms. -/
theorem normalizeBy_of_reduce {o : Owner} {nesting : Nat} {t r : Term} {s s' : Run String}
    (h : reduce o nesting t s = .ok r s') :
    normalizeBy o Term.script (nesting + 1) t s = .ok r s' := by
  rw [← normalize_eq]
  cases t with
  | app l r => exact h
  | prim p => cases h
  | var x => cases h

/-! ## Rules by themselves -/

/-- An evaluation that begins with the guard `g` returns `r` by `k` firings: with every budget
that has room for them, and with every nesting beyond them. -/
def ReturnsBy (x : Nat → Evaluation String Term) (g : Guard String) (k : Nat) (r : Term) : Prop :=
  ∃ h es, ∀ nesting limit c tr, k < nesting → Budget.HasRoom limit (c + k) →
    x nesting ⟨g, .counted limit c, tr⟩ = .ok r ⟨h, .counted limit (c + k), tr ++ es⟩

/-- What an evaluation returns by `k` firings, it returns without a limit. -/
theorem ReturnsBy.exists_run {x : Nat → Evaluation String Term} {g : Guard String} {k : Nat}
    {r : Term} (h : ReturnsBy x g k r) : ∃ s, x (k + 1) ⟨g, .unbounded, #[]⟩ = .ok r s := by
  obtain ⟨g', es, hrun⟩ := h
  exact ⟨_, hrun (k + 1) none 0 #[] (Nat.lt_succ_self k) (Budget.hasRoom_none _)⟩

section

variable {rule : Rule} {σ : Signature} {arg : Nat → Term}
  (hσ : ∀ number, 1 ≤ number → number ≤ rule.needs → σ.get number = .ok (arg number))
  (o : Owner) (redex : Term)

include hσ

/-- A rule that is applied by itself carries out its plan. -/
theorem apply_eq (nesting : Nat) : apply o nesting rule redex σ =
    (rule.plan arg).run (normalizeBy o Term.script nesting) (commit o Term.script redex) := by
  rw [apply, applyWith_eq o _ rule redex hσ, normalize_eq]

/-- What a rule returns is a reduct of what its template stands for; it stops for a limit or for
the nesting only. -/
theorem reduct_of_apply (nesting : Nat) (s : Run String) :
    match apply o nesting rule redex σ s with
    | .ok r _ => Steps (rule.pattern.fill arg) r
    | .error stop _ => IsExhaustion stop := by
  have calls : ∀ t s r s', normalizeBy o Term.script nesting t s = .ok r s' → Steps t r :=
    fun _ _ _ _ => steps_of_normalizeBy
  have stops : ∀ t s e s', normalizeBy o Term.script nesting t s = .error e s' →
      IsExhaustion e := fun _ _ _ _ => stop_of_normalizeBy
  rw [apply_eq hσ]
  cases hrun : (rule.plan arg).run (normalizeBy o Term.script nesting)
      (commit o Term.script redex) s with
  | ok r s' => exact (rule.plan_ensures_steps arg).of_run calls hrun
  | error stop s' => exact Plan.stop_of_run stops (commit_ne_error o Term.script redex) hrun

/-- The rules that ask for no normalization return their first term at once. -/
theorem apply_of_projection (hrule : rule = .identity ∨ rule = .constant) (nesting : Nat)
    (s : Run String) : apply o nesting rule redex σ s = .ok (arg 1) s := by
  rw [apply_eq hσ]
  rcases hrule with rfl | rfl <;> rfl

variable {o redex}

/-- What the plan of a rule comes to, the rule returns. -/
theorem returnsBy_of_yields {g h : Guard String} {es : List Event} {r : Term}
    (hy : (rule.plan arg).Yields o redex g es r h) :
    ReturnsBy (fun nesting => apply o nesting rule redex σ) g (Event.firings es) r := by
  refine ⟨h, es.toArray, fun nesting limit c tr hn hroom => ?_⟩
  dsimp only
  rw [apply_eq hσ]
  exact hy.run hn hroom tr

/-- **A rule returns exactly if the normalizations that it asks for halt**, and then it returns a
reduct. -/
theorem exists_returnsBy_iff (g : Guard String) :
    (∃ k r, Steps (rule.pattern.fill arg) r ∧
        ReturnsBy (fun nesting => apply o nesting rule redex σ) g k r) ↔
      ∀ es u h, (rule.plan arg).Asks o redex g es u h → Halts o u h := by
  rw [← Plan.exists_yields_iff]
  constructor
  · rintro ⟨k, r, -, hreturns⟩
    obtain ⟨s, hrun⟩ := hreturns.exists_run
    rw [apply_eq hσ] at hrun
    obtain ⟨es, hy⟩ := yields_of_run (fun _ _ _ _ => evaluates_of_normalizeBy) hrun
    exact ⟨es, r, s.guard, hy⟩
  · rintro ⟨es, r, h, hy⟩
    have hreturns := returnsBy_of_yields hσ hy
    obtain ⟨s, hrun⟩ := hreturns.exists_run
    have hreduct := reduct_of_apply hσ o redex (Event.firings es + 1) ⟨g, .unbounded, #[]⟩
    rw [hrun] at hreduct
    exact ⟨_, r, hreduct, hreturns⟩

end

/-- **Results are reducts**, of normalization and of reduction, with every guard and every
budget.  A rule that is applied by itself, with a term for each placeholder that it asks for, has
a reduct of its template with the terms in it for its result, or is stopped by the nesting or the
limit.  It does return, wherever these have room, if the normalizations that it asks for halt;
and rules that ask for none return their first term at once. -/
theorem results_are_reducts (o : Owner) :
    (∀ nesting t s r s', normalize o nesting t s = .ok r s' → Steps t r) ∧
    (∀ nesting t s r s', reduce o nesting t s = .ok r s' → Steps t r) ∧
    ∀ (rule : Rule) (redex : Term) (σ : Signature) (arg : Nat → Term),
      (∀ number, 1 ≤ number → number ≤ rule.needs → σ.get number = .ok (arg number)) →
      rule.pattern.text = rule.template ∧
        (∀ nesting s, match apply o nesting rule redex σ s with
          | .ok r _ => Steps (rule.pattern.fill arg) r
          | .error stop _ => IsExhaustion stop) ∧
        (∀ g, (∃ k r, Steps (rule.pattern.fill arg) r ∧
            ReturnsBy (fun nesting => apply o nesting rule redex σ) g k r) ↔
          ∀ es u h, (rule.plan arg).Asks o redex g es u h → Halts o u h) ∧
        (rule = .identity ∨ rule = .constant →
          ∀ nesting s, apply o nesting rule redex σ s = .ok (arg 1) s) := by
  refine ⟨?_, ?_, ?_⟩
  · intro nesting t s r s' h
    rw [normalize_eq] at h
    exact steps_of_normalizeBy h
  · intro nesting t s r s' h
    exact steps_of_normalizeBy (normalizeBy_of_reduce h)
  · intro rule redex σ arg hσ
    exact ⟨rule.text_pattern, reduct_of_apply hσ o redex, exists_returnsBy_iff hσ,
      apply_of_projection hσ o redex⟩

/-- A normalization and a reduction that return; and two rules applied by themselves: the one for
two applications, which evaluations do not pick, has both of them normalized, and the one for `I`
needs no nesting. -/
theorem results_are_reducts_of_identity :
    let main : Owner := .thread .main
    let start : Run String := ⟨.empty, .unbounded, #[]⟩
    let redex := app (app I K) (app I S)
    let σ := Signature.ofBindings Rule.pair.template [I, K, I, S]
    let τ := Signature.ofBindings Rule.identity.template [S]
    (∃ s, normalize main 2 (app I K) start = .ok K s) ∧
      (∃ s, reduce main 1 (app I K) start = .ok K s) ∧ Steps (app I K) K ∧
      (∀ number, 1 ≤ number → number ≤ Rule.pair.needs →
        σ.get number = .ok (argument [I, K, I, S] number)) ∧
      (∃ s, apply main 3 .pair redex σ start = .ok (app K S) s) ∧ Steps redex (app K S) ∧
      (∀ es u h, (Rule.pair.plan (argument [I, K, I, S])).Asks main redex .empty es u h →
        Halts main u h) ∧
      (∀ number, 1 ≤ number → number ≤ Rule.identity.needs →
        τ.get number = .ok (argument [S] number)) ∧
      apply main 0 .identity (app I S) τ start = .ok S start := by
  intro main start redex σ τ
  obtain ⟨-, hreduce, hrule⟩ := results_are_reducts main
  have he : Evaluates main (app I K) .empty _ K .empty := .fire rfl (.done _ K _)
  have hσ : ∀ number, 1 ≤ number → number ≤ Rule.pair.needs →
      σ.get number = .ok (argument [I, K, I, S] number) :=
    fun _ h₁ h₂ => Signature.get_ofBindings h₁ h₂
  have hτ : ∀ number, 1 ≤ number → number ≤ Rule.identity.needs →
      τ.get number = .ok (argument [S] number) :=
    fun _ h₁ h₂ => Signature.get_ofBindings h₁ h₂
  have hy : (Rule.pair.plan (argument [I, K, I, S])).Yields main redex .empty
      ([.fired .identity (app I K)] ++ ([.fired .identity (app I S)] ++ [])) (app K S) .empty :=
    .fire rfl (.done _ K _) (.fire rfl (.done _ S _) (.normal rfl (.done _ _ _)))
  have hreturns : ReturnsBy (fun nesting => apply main nesting .pair redex σ) .empty 2 (app K S) :=
    returnsBy_of_yields hσ hy
  obtain ⟨s, hrun⟩ : ∃ s, apply main 3 .pair redex σ start = .ok (app K S) s :=
    hreturns.exists_run
  obtain ⟨-, hreduct, hiff, -⟩ := hrule .pair redex σ _ hσ
  obtain ⟨-, -, -, hatonce⟩ := hrule .identity (app I S) τ _ hτ
  have hsteps := hreduct 3 start
  rw [hrun] at hsteps
  exact ⟨⟨_, he.normalize⟩, ⟨_, he.normalize⟩, hreduce _ _ _ _ _ he.normalize, hσ, ⟨s, hrun⟩,
    hsteps, (hiff .empty).1 ⟨2, _, hsteps, hreturns⟩, hτ, hatonce (.inl rfl) 0 start⟩

end Evaluation

end Combinatory
