import Combinatory.Proofs.Matching

/-!
# Plans

What a rule does with its arguments is written over an arbitrary monad.  Instantiated at
the monad of plans it becomes data: the calls and commits that are still to be made, as
they depend on the answers to those before.  Running the plan of a rule is applying the
rule (`Rule.contract_eq_run`), so that a fact about evaluations is proved once for a
call, once for a commit and once for the end, and not once for each rule.

The engine `Evaluation.normalizeBy` runs plans and picks them by the shape of the term.
Its guard may hold entries of any type; with texts as entries it is
`Evaluation.normalize` (`Evaluation.normalize_eq`).

## Main definitions

* `Plan`, `Plan.run`: plans, and what they do in a monad.
* `Rule.plan`: the plan of a rule.
* `Plan.Ensures`: what the end of a plan satisfies, whatever is answered.
* `Evaluation.normalizeBy`: normalization by shape, with entries of any type.

## Main results

* `Rule.contract_eq_run`: a rule does what its plan says.
* `Evaluation.normalize_eq`, `Evaluation.applyWith_eq`: evaluations run plans.
-/

namespace Combinatory

/-- The calls and commits that a computation makes before it ends with a value. -/
inductive Plan (β : Type) : Type
  /-- The end. -/
  | done (b : β)
  /-- Have a term normalized, and go on with the result. -/
  | call (t : Term) (next : Term → Plan β)
  /-- Commit the redex, and go on according to whether it was new. -/
  | commit (next : Bool → Plan β)

namespace Plan

variable {β γ : Type}

/-- One plan after another. -/
def bind : Plan β → (β → Plan γ) → Plan γ
  | done b, f => f b
  | call t next, f => call t fun r => (next r).bind f
  | commit next, f => commit fun fresh => (next fresh).bind f

instance : Monad Plan where
  pure := done
  bind := bind

/-- Carry out a plan, with a way to normalize and a way to commit. -/
def run {m : Type → Type} [Monad m] (normalize : Term → m Term) (register : m Bool) :
    Plan β → m β
  | done b => pure b
  | call t next => do
      let r ← normalize t
      (next r).run normalize register
  | commit next => do
      let fresh ← register
      (next fresh).run normalize register

/-- What holds of the end of a plan whenever each call is answered by a term that it may
return, and however the commits are answered. -/
def Ensures (returns : Term → Term → Prop) (post : β → Prop) : Plan β → Prop
  | done b => post b
  | call t next => ∀ r, returns t r → (next r).Ensures returns post
  | commit next => ∀ fresh, (next fresh).Ensures returns post

/-- More may be assumed of calls, and less be asked of the end. -/
theorem Ensures.mono {returns returns' : Term → Term → Prop} {post post' : β → Prop}
    (hreturns : ∀ t r, returns' t r → returns t r) (hpost : ∀ b, post b → post' b)
    {p : Plan β} (h : p.Ensures returns post) : p.Ensures returns' post' := by
  induction p with
  | done b => exact hpost b h
  | call t next ih => exact fun r hr => ih r (h r (hreturns t r hr))
  | commit next ih => exact fun fresh => ih fresh (h fresh)

section Run

variable {m : Type → Type} [Monad m] (normalize : Term → m Term) (register : m Bool)

@[simp] theorem run_pure (b : β) :
    (pure b : Plan β).run normalize register = pure b := rfl

@[simp] theorem run_done (b : β) : (done b).run normalize register = pure b := rfl

@[simp] theorem run_call (t : Term) (next : Term → Plan β) :
    (call t next).run normalize register =
      normalize t >>= fun r => (next r).run normalize register := rfl

@[simp] theorem run_commit (next : Bool → Plan β) :
    (commit next).run normalize register =
      register >>= fun fresh => (next fresh).run normalize register := rfl

/-- Plans in a row are carried out in a row. -/
@[simp] theorem run_bind [LawfulMonad m] (p : Plan β) (f : β → Plan γ) :
    (p >>= f).run normalize register =
      p.run normalize register >>= fun b => (f b).run normalize register := by
  change (p.bind f).run normalize register = _
  induction p with
  | done b => simp [bind]
  | call t next ih => simp [bind, ih]
  | commit next ih => simp [bind, ih]

end Run

end Plan

namespace Rule

/-- The plan of a rule, with a term for each placeholder. -/
def plan (arg : Nat → Term) (rule : Rule) : Plan Term :=
  rule.contract (fun number => .done (arg number)) (fun t => .call t .done) (.commit .done)

/-- **A rule does what its plan says.**  Only the bindings that the rule asks for have to
be there. -/
theorem contract_eq_run {m : Type → Type} [Monad m] [LawfulMonad m] (rule : Rule)
    {lookup : Nat → m Term} {arg : Nat → Term} (normalize : Term → m Term)
    (register : m Bool)
    (h : ∀ number, 1 ≤ number → number ≤ rule.needs → lookup number = pure (arg number)) :
    rule.contract lookup normalize register = (rule.plan arg).run normalize register := by
  have h₁ : 1 ≤ rule.needs → lookup 1 = pure (arg 1) := h 1 (by omega)
  have h₂ : 2 ≤ rule.needs → lookup 2 = pure (arg 2) := h 2 (by omega)
  have h₃ : 3 ≤ rule.needs → lookup 3 = pure (arg 3) := h 3 (by omega)
  have h₄ : 4 ≤ rule.needs → lookup 4 = pure (arg 4) := h 4 (by omega)
  cases rule <;>
    · simp only [needs, Nat.reduceLeDiff, forall_const, false_implies] at h₁ h₂ h₃ h₄
      simp [contract, plan, *, apply_ite (Plan.run normalize register)]

end Rule

namespace Term

variable {t : Term} {rule : Rule} {args : List Term}

/-- A term that a rule applies to is the template of the rule with the arguments in it. -/
theorem fill_of_redex? (h : t.redex? = some (rule, args)) :
    rule.pattern.fill (argument args) = t := by
  unfold redex? at h
  split at h <;> cases h <;> rfl

/-- A rule that applies to a term has all the bindings that it asks for. -/
theorem needs_le_of_redex? (h : t.redex? = some (rule, args)) :
    rule.needs ≤ args.length := by
  unfold redex? at h
  split at h <;> cases h <;> simp [Rule.needs]

/-- No rule applies to an atom. -/
theorem redex?_of_isAtom (h : t.isAtom = true) : t.redex? = none := by
  cases t with
  | app l r => cases h
  | _ => rfl

/-- The rule for a longer spine is picked for spines with a nested head. -/
theorem exists_spine_of_redex? (hred : t.redex? = some (.nestedHead, args)) :
    ∃ h a b c d, t = app (app (app (app h a) b) c) d ∧ args = [app h a, b, c, d] := by
  unfold redex? at hred
  split at hred <;> cases hred
  exact ⟨_, _, _, _, _, rfl, rfl⟩

/-- The rule for two applications is not picked for any term. -/
theorem redex?_ne_pair : t.redex? ≠ some (.pair, args) := by
  intro h
  unfold redex? at h
  split at h <;> cases h

end Term

namespace Evaluation

open Term

section

variable {α : Type} [DecidableEq α]

/-- Fire a rule at a redex, where `normalize` is used for the calls of its plan, and
the redex is committed under its entry. -/
def fire (o : Owner) (entry : Term → α) (normalize : Term → Evaluation α Term) (t : Term)
    (rule : Rule) (args : List Term) : Evaluation α Term := do
  pay
  record (.fired rule t)
  (rule.plan (argument args)).run normalize (commit o entry t)

/-- Normalization that picks rules by the shape of the term, with at most `nesting` calls
nested in one another. -/
def normalizeBy (o : Owner) (entry : Term → α) : Nat → Term → Evaluation α Term
  | 0, _ => throw .tooDeep
  | nesting + 1, t =>
      match t.redex? with
      | none => return t
      | some (rule, args) => fire o entry (normalizeBy o entry nesting) t rule args

variable {o : Owner} {entry : Term → α} {t : Term}

/-- A term that no rule applies to is normal. -/
theorem normalizeBy_of_none (nesting : Nat) (h : t.redex? = none) :
    normalizeBy o entry (nesting + 1) t = pure t := by
  rw [normalizeBy, h]

/-- The rule that applies to a term is fired. -/
theorem normalizeBy_of_some (nesting : Nat) {rule : Rule} {args : List Term}
    (h : t.redex? = some (rule, args)) : normalizeBy o entry (nesting + 1) t =
      fire o entry (normalizeBy o entry nesting) t rule args := by
  rw [normalizeBy, h]

/-- What holds of all normalizations: what holds of those that are too deep, of terms that no
rule applies to, and of the firing of a rule if it holds of the calls. -/
theorem normalizeBy_induction {P : Term → Evaluation α Term → Prop}
    (deep : ∀ t, P t (throw .tooDeep)) (normal : ∀ t, t.redex? = none → P t (pure t))
    (fires : ∀ normalize : Term → Evaluation α Term, (∀ u, P u (normalize u)) →
      ∀ t rule args, t.redex? = some (rule, args) →
        P t (fire o entry normalize t rule args))
    (nesting : Nat) (t : Term) : P t (normalizeBy o entry nesting t) := by
  induction nesting generalizing t with
  | zero => exact deep t
  | succ nesting ih =>
      cases hred : t.redex? with
      | none =>
          rw [normalizeBy_of_none nesting hred]
          exact normal t hred
      | some found =>
          obtain ⟨rule, args⟩ := found
          rw [normalizeBy_of_some nesting hred]
          exact fires _ ih t rule args hred

end

/-- A rule that finds its bindings in a signature is carried out by its plan. -/
theorem applyWith_eq (o : Owner) (normalize : Term → Evaluation String Term) (rule : Rule)
    (redex : Term) {σ : Signature} {arg : Nat → Term}
    (h : ∀ number, 1 ≤ number → number ≤ rule.needs → σ.get number = .ok (arg number)) :
    applyWith o normalize rule redex σ =
      (rule.plan arg).run normalize (commit o Term.script redex) := by
  apply Rule.contract_eq_run
  intro number h₁ h₂
  rw [h number h₁ h₂]
  rfl

/-- Reduction of an application fires the rule for its shape. -/
theorem reduceWith_app (o : Owner) (normalize : Term → Evaluation String Term) (l r : Term) :
    reduceWith o normalize (app l r) =
      match (app l r).redex? with
      | none => return app l r
      | some (rule, args) => fire o Term.script normalize (app l r) rule args := by
  rw [reduceWith, matchRedex_app]
  cases h : (app l r).redex? with
  | none => rfl
  | some found =>
      obtain ⟨rule, args⟩ := found
      have hget : ∀ number, 1 ≤ number → number ≤ rule.needs →
          (Signature.ofBindings rule.template args).get number = .ok (argument args number) := by
        intro number h₁ h₂
        exact Signature.get_ofBindings h₁ (Nat.le_trans h₂ (needs_le_of_redex? h))
      simp only [Option.map_some, lift, pure_bind, applyWith_eq o normalize rule _ hget, fire]

/-- **Normalization runs the plan of the rule for the shape of the term.** -/
theorem normalize_eq (o : Owner) (nesting : Nat) :
    normalize o nesting = normalizeBy o Term.script nesting := by
  induction nesting with
  | zero => rfl
  | succ nesting ih =>
      funext t
      cases h : t.isAtom with
      | true => simp only [normalize, normalizeBy, h, if_true, redex?_of_isAtom h]
      | false =>
          obtain ⟨l, r, rfl⟩ := exists_app_of_isAtom_eq_false h
          simp only [normalize, normalizeBy, h, Bool.false_eq_true, if_false, reduceWith_app, ih]

/-- A term that no rule applies to is returned in the state as it is. -/
theorem normalize_of_redex?_eq_none {t : Term} (hred : t.redex? = none) (o : Owner) (n : Nat)
    (s : Run String) : normalize o (n + 1) t s = .ok t s := by
  rw [normalize_eq, normalizeBy_of_none n hred]
  rfl

end Evaluation

end Combinatory
