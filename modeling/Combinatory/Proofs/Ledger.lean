import Combinatory.Proofs.Reference
import Combinatory.Proofs.Termination

/-!
# Ledgers of runs

Some rules commit their redex, each of them exactly once, and the others never do.  When such a
rule fires, a commit falls due; it is made later, and where the rule is that for longer spines,
other terms are normalized first.  A ledger is an invariant of the states of a run that knows
how many commits are due.  It is kept by firings, which add to what is due, and by commits,
which take from it; so a normalization that returns leaves as much due as there was, and one
that stops may leave commits undone.

As with runs in step, only the terms that are reached have to be looked at.

## Main definitions

* `Rule.commits`, `Plan.Commits`: the rules that commit, and the commits of a plan.
* `Term.IsGuarded`: the redexes that are committed, by their left spine.
* `Evaluation.Ledger`: what makes an invariant hold of runs.

## Main results

* `Rule.plan_commits`: a rule commits once or never.
* `Evaluation.Ledger.normalizeBy`: normalization keeps a ledger.
-/

namespace Combinatory

open Relation Term

/-- The rules that commit their redex. -/
def Rule.commits : Rule → Bool
  | identityApplied | identityAppliedTwice | substitution | nestedHead => true
  | identity | constant | constantApplied | pair => false

/-- A plan makes so many commits, whatever is answered. -/
def Plan.Commits {β : Type} : Plan β → Nat → Prop
  | done _, count => count = 0
  | call _ next, count => ∀ r, (next r).Commits count
  | commit _, 0 => False
  | commit next, count + 1 => ∀ fresh, (next fresh).Commits count

/-- **A rule commits its redex once or never.** -/
theorem Rule.plan_commits (arg : Nat → Term) (rule : Rule) :
    (rule.plan arg).Commits rule.commits.toNat := by
  cases rule with
  | identity => rfl
  | identityApplied =>
      intro fresh a b
      cases fresh with
      | false => rfl
      | true => exact fun _ => rfl
  | constant => rfl
  | identityAppliedTwice =>
      intro fresh a
      cases fresh with
      | false => rfl
      | true => exact fun _ _ _ _ => rfl
  | constantApplied => exact fun _ => rfl
  | substitution =>
      intro fresh
      cases fresh with
      | false => exact fun _ => rfl
      | true => exact fun _ _ _ => rfl
  | pair => exact fun _ _ _ => rfl
  | nestedHead =>
      intro a fresh inner
      cases fresh with
      | false => exact fun _ => rfl
      | true => exact fun _ => rfl

/-- The redexes that are committed: `I` with one argument too many or two, `S` with its three
arguments, and every spine with four arguments or more. -/
def Term.IsGuarded (t : Term) : Prop :=
  t.head = I ∧ (t.arguments.length = 2 ∨ t.arguments.length = 3) ∨
    t.head = S ∧ t.arguments.length = 3 ∨ 4 ≤ t.arguments.length

/-- What is committed is an application. -/
theorem Term.IsGuarded.isAtom_eq_false {t : Term} (h : t.IsGuarded) : t.isAtom = false := by
  cases t with
  | app l r => rfl
  | _ => simp [IsGuarded, arguments] at h

/-- The redexes of the rules that commit are of this kind. -/
theorem Term.isGuarded_of_redex? {t : Term} {rule : Rule} {args : List Term}
    (hred : t.redex? = some (rule, args)) (hcommits : rule.commits = true) : t.IsGuarded := by
  unfold redex? at hred
  split at hred <;> cases hred
  case h_1 | h_3 | h_5 => cases hcommits
  case h_2 => exact .inl ⟨rfl, .inl rfl⟩
  case h_4 => exact .inl ⟨rfl, .inr rfl⟩
  case h_6 => exact .inr (.inl ⟨rfl, rfl⟩)
  case h_7 => exact .inr (.inr (by simp [length_arguments_app]))

namespace Evaluation

variable {α β γ : Type} {I : Nat → Run α → Prop} {E : Stop → Run α → Prop}

/-- A computation ends by an invariant: `I` holds, with so many commits due, if it returns, and
`E` if it stops. -/
def Closes (I : Nat → Run α → Prop) (E : Stop → Run α → Prop) (due : Nat) :
    EStateM.Result Stop (Run α) β → Prop
  | .ok _ s => I due s
  | .error e s => E e s

/-- A computation leaves as many commits due as there are. -/
def Keeps (I : Nat → Run α → Prop) (E : Stop → Run α → Prop) (x : Evaluation α β) : Prop :=
  ∀ due s, I due s → Closes I E due (x s)

/-- An invariant that is the same for all ends holds where the computation ends. -/
theorem Closes.last {J : Run α → Prop} {due : Nat} {result : EStateM.Result Stop (Run α) β}
    (h : Closes (fun _ => J) (fun _ => J) due result) : J (last result) := by
  cases result with
  | ok b s => exact h
  | error e s => exact h

/-- A sequence ends by an invariant if its second part does, from where the first returns. -/
theorem Closes.bind {x : Evaluation α β} {f : β → Evaluation α γ} {s : Run α} {due due' : Nat}
    (hx : Closes I E due (x s))
    (hf : ∀ b s', x s = .ok b s' → I due s' → Closes I E due' (f b s')) :
    Closes I E due' ((x >>= f) s) := by
  cases hrun : x s with
  | ok b s' =>
      rw [hrun] at hx
      rw [bind_of_ok f hrun]
      exact hf b s' hrun hx
  | error e s' =>
      rw [hrun] at hx
      rw [bind_of_error f hrun]
      exact hx

/-- A plan makes the commits that are due for it, if its commits take from what is due and
those calls that are demanded keep it. -/
theorem closes_run {returns : Term → Term → Prop} {demand : Option Bool → Term → Prop}
    {normalize : Term → Evaluation α Term} {register : Evaluation α Bool}
    (hcall : ∀ fresh t, demand fresh t → Keeps I E (normalize t))
    (hreturns : ∀ t s r s', normalize t s = .ok r s' → returns t r) {p : Plan β} {count : Nat}
    (hcommit : 0 < count → ∀ due s, I (due + 1) s → Closes I E due (register s))
    (hcount : p.Commits count) {fresh : Option Bool} (hp : p.Demands returns demand fresh)
    {due : Nat} {s : Run α} (hs : I (due + count) s) :
    Closes I E due (p.run normalize register s) := by
  induction p generalizing count fresh s with
  | done b =>
      obtain rfl : count = 0 := hcount
      exact hs
  | call t next ih =>
      exact (hcall fresh t hp.1 _ s hs).bind fun r s' hr hs' =>
        ih r hcommit (hcount r) (hp.2 r (hreturns t s r s' hr)) hs'
  | commit next ih =>
      cases count with
      | zero => exact hcount.elim
      | succ count =>
          have hfirst := hcommit (Nat.succ_pos count)
          exact (hfirst _ s hs).bind fun fresh' s' _ hs' =>
            ih fresh' (fun _ => hfirst) (hcount fresh') (hp fresh') hs'

variable [DecidableEq α] {o : Owner} {entry : Term → α} {P : Term → Prop}

/-- What makes `I`, with the number of the commits that are due, an invariant of the runs that
normalize terms of `P`, and `E` hold wherever they stop. -/
structure Ledger (I : Nat → Run α → Prop) (E : Stop → Run α → Prop) (o : Owner)
    (entry : Term → α) (P : Term → Prop) : Prop where
  /-- Terms of `P` lead down to terms of `P`. -/
  down : ∀ t u, P t → Descends t u → P u
  deep : ∀ due s, I due s → E .tooDeep s
  refuse : ∀ due s e s', I due s → pay s = .error e s' → E e s'
  fire : ∀ due rule t s s', I due s → Fired rule t s s' → I (due + rule.commits.toNat) s'
  commit : ∀ due t s, P t → t.IsGuarded → I (due + 1) s → I due (last (commit o entry t s))

/-- A firing ends by an invariant if it may stop where it is paid for, and if its plan ends by
the invariant. -/
theorem closes_fire {normalize : Term → Evaluation α Term} {t : Term} {rule : Rule}
    {args : List Term} {due : Nat} {s : Run α}
    (hpay : ∀ e s', pay s = .error e s' → E e s')
    (hplan : ∀ s₁, Fired rule t s s₁ →
      Closes I E due ((rule.plan (argument args)).run normalize (commit o entry t) s₁)) :
    Closes I E due (fire o entry normalize t rule args s) := by
  cases hrun : fire o entry normalize t rule args s with
  | ok r s' =>
      obtain ⟨s₁, hfired, hrun⟩ := fire_eq_ok.1 hrun
      have hend := hplan s₁ hfired
      rwa [hrun] at hend
  | error e s' =>
      rcases fire_eq_error.1 hrun with hstop | ⟨s₁, hfired, hrun⟩
      · exact hpay e s' hstop
      · have hend := hplan s₁ hfired
        rwa [hrun] at hend

/-- **Normalization keeps a ledger**, on all terms of `P`. -/
theorem Ledger.normalizeBy (h : Ledger I E o entry P) (n : Nat) (t : Term) (ht : P t) :
    Keeps I E (normalizeBy o entry n t) := by
  induction n generalizing t with
  | zero => exact fun due s hs => h.deep due s hs
  | succ n ih =>
      intro due s hs
      cases hred : t.redex? with
      | none =>
          rw [normalizeBy_of_none n hred]
          exact hs
      | some found =>
          obtain ⟨rule, args⟩ := found
          -- The calls that are demanded are of terms that lead down from here, or of the redex
          -- again, so they stay in `P`.
          have hcall : ∀ fresh u, DescendsOrRepeats t fresh u →
              Keeps I E (Evaluation.normalizeBy o entry n u) :=
            fun _ u hu => ih u (hu.of_closed h.down ht)
          have hcommit : 0 < rule.commits.toNat → ∀ due s, I (due + 1) s →
              Closes I E due (Evaluation.commit o entry t s) := by
            intro hpos due s hs
            have hcommits : rule.commits = true := by simpa [Nat.pos_iff_ne_zero] using hpos
            have hlast := h.commit due t s ht (isGuarded_of_redex? hred hcommits) hs
            rw [commit_apply] at hlast ⊢
            exact hlast
          rw [normalizeBy_of_some n hred]
          exact closes_fire (fun e s' => h.refuse due s e s' hs) fun s₁ hfired =>
            closes_run hcall (fun _ _ _ _ => steps_of_normalizeBy) hcommit
              (rule.plan_commits _) (demands_of_redex? hred) (h.fire due rule t s s₁ hs hfired)

end Evaluation

end Combinatory
