import Combinatory.Proofs.BigStep

/-!
# Runs with a limit

A run with a limit always ends.  Each level of nesting is entered through a firing, and
all levels draw on the same count, so a limit of `L` firings is used up by `L` levels and
one more level refuses: `L + 1` levels are all that is ever nested.  This needs nothing of
the terms, which may grow for ever, or of the guard.

That the levels suffice is said twice: a run that is given them does not stop for being too
deep (`holdsLimit_normalizeBy`), and more of them change nothing (`normalizeBy_stable`).

## Main definitions

* `Stop.exceeds`: the stop of an evaluation that fires more rules than its limit allows.
* `Evaluation.HoldsLimit`: a computation ends within its limit, or one step beyond it.
* `Evaluation.IsTooDeep`: the nested calls are used up.

## Main results

* `Evaluation.normalizeBy_stable`: the nesting does not matter where it suffices.
* `Evaluation.holdsLimit_normalizeBy`: a nesting of more than the steps left suffices.
* `Evaluation.limited_run_ends`: runs with a limit end.
-/

namespace Combinatory

open Term

/-- Too many rules fired: one more than a limit allows. -/
def Stop.exceeds (limit : Nat) : Stop :=
  .fault (.limitExceeded (.integer (limit + 1 : Nat)) (.integer limit))

/-- Such a stop is reported as an error of the limit, as long as its count can be written. -/
theorem Stop.kind_exceeds (limit : Nat) : (exceeds limit).kind =
    if limit + 1 < Text.numeralBound then .limit else .value :=
  Fault.kind_limitExceeded_natCast (Nat.le_succ limit)

/-- A new budget with a limit has counted nothing. -/
theorem Budget.ofLimit_natCast (L : Nat) :
    ofLimit (some (.integer L)) = .ok (.counted (some L) 0) := by
  have hneg : ¬ (L : Int) < 0 := by omega
  simp [ofLimit, Number.zero, hneg, counted]

/-- A count passes the check of its limit if it is not above it. -/
theorem Budget.check_counted (L c : Nat) : (counted (some L) c).check =
    if L < c then .error (.limitExceeded (.integer c) (.integer L)) else .ok () := by
  simp [check, counted]

namespace Evaluation

/-! ## Nesting -/

section

variable {α β : Type}

/-- A computation stops because its nested calls are used up. -/
def IsTooDeep (result : EStateM.Result Stop (Run α) β) : Prop :=
  outcome result = .error .tooDeep

/-- A sequence whose first part is too deep is too deep. -/
theorem IsTooDeep.bind {γ : Type} {x : Evaluation α β} {s : Run α} (f : β → Evaluation α γ)
    (h : IsTooDeep (x s)) : IsTooDeep ((x >>= f) s) := by
  cases hx : x s with
  | ok b s' =>
      rw [hx] at h
      cases h
  | error e s' =>
      rw [hx] at h
      cases h
      rw [bind_of_error f hx]
      rfl

/-- A plan is carried out alike with other calls that are the same where the first do not go
too deep, if it does not go too deep itself. -/
theorem run_stable {normalize normalize' : Term → Evaluation α Term}
    {register : Evaluation α Bool}
    (hcall : ∀ t s, ¬ IsTooDeep (normalize t s) → normalize' t s = normalize t s)
    (p : Plan β) (s : Run α) (h : ¬ IsTooDeep (p.run normalize register s)) :
    p.run normalize' register s = p.run normalize register s := by
  induction p generalizing s with
  | done b => rfl
  | call t next ih =>
      rw [Plan.run_call] at h
      have hsame := hcall t s fun hdeep => h (hdeep.bind _)
      rw [Plan.run_call, Plan.run_call]
      cases hrun : normalize t s with
      | ok r s' =>
          rw [bind_of_ok _ hrun] at h
          rw [bind_of_ok _ hrun, bind_of_ok _ (hsame.trans hrun)]
          exact ih r s' h
      | error e s' => rw [bind_of_error _ hrun, bind_of_error _ (hsame.trans hrun)]
  | commit next ih =>
      rw [Plan.run_commit] at h
      rw [Plan.run_commit, Plan.run_commit]
      cases hreg : register s with
      | ok fresh s' =>
          rw [bind_of_ok _ hreg] at h
          rw [bind_of_ok _ hreg, bind_of_ok _ hreg]
          exact ih fresh s' h
      | error e s' => rw [bind_of_error _ hreg, bind_of_error _ hreg]

variable [DecidableEq α] {o : Owner} {entry : Term → α} {t : Term} {s : Run α} {n m : Nat}

/-- **A run that does not go too deep is the same with more nesting.** -/
theorem normalizeBy_stable (hnm : n ≤ m) (h : ¬ IsTooDeep (normalizeBy o entry n t s)) :
    normalizeBy o entry m t s = normalizeBy o entry n t s := by
  induction n generalizing m t s with
  | zero => exact absurd rfl h
  | succ n ih =>
      obtain ⟨m, rfl⟩ : ∃ m', m = m' + 1 := ⟨m - 1, by omega⟩
      have hcall : ∀ u s', ¬ IsTooDeep (normalizeBy o entry n u s') →
          normalizeBy o entry m u s' = normalizeBy o entry n u s' :=
        fun _ _ hdeep => ih (by omega) hdeep
      cases hred : t.redex? with
      | none => rw [normalizeBy_of_none _ hred, normalizeBy_of_none _ hred]
      | some found =>
          obtain ⟨rule, args⟩ := found
          rw [normalizeBy_of_some _ hred, fire] at h
          rw [normalizeBy_of_some _ hred, normalizeBy_of_some _ hred, fire, fire]
          cases hpay : pay s with
          | ok _ s' =>
              rw [bind_of_ok _ hpay, bind_of_ok _ (record_apply _ _)] at h
              rw [bind_of_ok _ hpay, bind_of_ok _ (record_apply _ _),
                bind_of_ok _ hpay, bind_of_ok _ (record_apply _ _)]
              exact run_stable hcall _ _ h
          | error e s' => rw [bind_of_error _ hpay, bind_of_error _ hpay]

/-- Two runs from one state that do not go too deep are the same. -/
theorem normalizeBy_congr_nesting (hn : ¬ IsTooDeep (normalizeBy o entry n t s))
    (hm : ¬ IsTooDeep (normalizeBy o entry m t s)) :
    normalizeBy o entry m t s = normalizeBy o entry n t s := by
  rcases Nat.le_total n m with hle | hle
  · exact normalizeBy_stable hle hn
  · exact (normalizeBy_stable hle hm).symm

end

/-! ## Limits -/

section

variable {β γ : Type} {L c n : Nat} {o : Owner} {t : Term} {g : Guard String}

/-- An end within the limit `L`, from a count of `c`, or a stop one step beyond it. -/
inductive EndsBy (L c : Nat) : EStateM.Result Stop (Run String) β → Prop
  | ok (b : β) {s : Run String} {c' : Nat} (hc : c ≤ c') (hL : c' ≤ L)
      (hs : s.budget = .counted (some L) c') : EndsBy L c (.ok b s)
  | exceeds {s : Run String} (hs : s.budget = .counted (some L) (L + 1)) :
      EndsBy L c (.error (.exceeds L) s)

/-- An end by the limit is not for being too deep. -/
theorem EndsBy.not_isTooDeep {result : EStateM.Result Stop (Run String) β}
    (h : EndsBy L c result) : ¬ IsTooDeep result := by
  intro hdeep
  cases h with
  | ok => cases hdeep
  | exceeds => cases hdeep

/-- An end from a count is one from every lower count. -/
theorem EndsBy.mono {result : EStateM.Result Stop (Run String) β} {c₁ : Nat}
    (h : EndsBy L c₁ result) (hc : c ≤ c₁) : EndsBy L c result := by
  cases h with
  | ok b hc₁ hL hs => exact .ok b (Nat.le_trans hc hc₁) hL hs
  | exceeds hs => exact .exceeds hs

/-- A computation ends by the limit `L` from every count between `c` and the limit. -/
def HoldsLimit (L c : Nat) (x : Evaluation String β) : Prop :=
  ∀ g c' tr, c ≤ c' → c' ≤ L → EndsBy L c' (x ⟨g, .counted (some L) c', tr⟩)

theorem holdsLimit_pure (b : β) : HoldsLimit L c (pure b) :=
  fun _ _ _ _ hL => .ok b (Nat.le_refl _) hL rfl

theorem holdsLimit_commit (o : Owner) (t : Term) : HoldsLimit L c (commit o Term.script t) := by
  intro g c' tr _ hL
  rw [commit_apply]
  exact .ok _ (Nat.le_refl _) hL rfl

/-- A sequence holds a limit if its parts do: the second begins with a higher count. -/
theorem HoldsLimit.bind {x : Evaluation String β} {f : β → Evaluation String γ}
    (hx : HoldsLimit L c x) (hf : ∀ b, HoldsLimit L c (f b)) : HoldsLimit L c (x >>= f) := by
  intro g c' tr hc hL
  have hend := hx g c' tr hc hL
  generalize hrun : x ⟨g, .counted (some L) c', tr⟩ = result at hend
  cases hend with
  | ok b hc₁ hL₁ hs =>
      rename_i s c₁
      obtain ⟨g₁, b₁, tr₁⟩ := s
      obtain rfl : b₁ = _ := hs
      rw [bind_of_ok f hrun]
      exact (hf b g₁ c₁ tr₁ (Nat.le_trans hc hc₁) hL₁).mono hc₁
  | exceeds hs =>
      rw [bind_of_error f hrun]
      exact .exceeds hs

/-- A plan holds a limit if its calls do. -/
theorem holdsLimit_run {normalize : Term → Evaluation String Term}
    (hcall : ∀ t, HoldsLimit L c (normalize t)) (t : Term) (p : Plan β) :
    HoldsLimit L c (p.run normalize (commit o Term.script t)) := by
  induction p with
  | done b => exact holdsLimit_pure b
  | call u next ih => exact (hcall u).bind ih
  | commit next ih => exact (holdsLimit_commit o t).bind ih

/-- A count that has come to the limit, or has gone past it, is refused one step more. -/
theorem pay_of_le (hc : L ≤ c) (g : Guard String) (tr : Array Event) :
    pay ⟨g, .counted (some L) c, tr⟩ =
      .error (.fault (.limitExceeded (.integer (c + 1 : Nat)) (.integer L)))
        ⟨g, .counted (some L) (c + 1), tr⟩ := by
  have hspend : (⟨g, .counted (some L) c, tr⟩ : Run String).budget.spend .one =
      .counted (some L) (c + 1) := rfl
  rw [pay_apply, hspend, Budget.check_counted, if_pos (Nat.lt_succ_of_le hc)]

/-- At the limit, paying stops one step beyond it. -/
theorem pay_exceeds (g : Guard String) (L : Nat) (tr : Array Event) :
    pay ⟨g, .counted (some L) L, tr⟩ =
      .error (.exceeds L) ⟨g, .counted (some L) (L + 1), tr⟩ :=
  pay_of_le (Nat.le_refl L) g tr

/-- A term that a rule applies to is refused by a limit that the count has come to. -/
theorem normalize_of_le {rule : Rule} {args : List Term} (hred : t.redex? = some (rule, args))
    (hc : L ≤ c) (o : Owner) (n : Nat) (g : Guard String) (tr : Array Event) :
    normalize o (n + 1) t ⟨g, .counted (some L) c, tr⟩ =
      .error (.fault (.limitExceeded (.integer (c + 1 : Nat)) (.integer L)))
        ⟨g, .counted (some L) (c + 1), tr⟩ := by
  rw [normalize_eq, normalizeBy_of_some n hred]
  exact bind_of_error _ (pay_of_le hc g tr)

/-- At the limit, no rule fires. -/
theorem fire_exceeds (normalize : Term → Evaluation String Term) (t : Term) (rule : Rule)
    (args : List Term) (g : Guard String) (L : Nat) (tr : Array Event) :
    fire o Term.script normalize t rule args ⟨g, .counted (some L) L, tr⟩ =
      .error (.exceeds L) ⟨g, .counted (some L) (L + 1), tr⟩ :=
  bind_of_error _ (pay_exceeds g L tr)

/-- **A nesting of more than the steps that are left holds the limit.**  The firing that
enters a level leaves one step less for the levels below it. -/
theorem holdsLimit_normalizeBy (hn : L < n + c) (t : Term) :
    HoldsLimit L c (normalizeBy o Term.script n t) := by
  induction n generalizing c t with
  | zero =>
      intro g c' tr hc hL
      omega
  | succ n ih =>
      cases hred : t.redex? with
      | none =>
          rw [normalizeBy_of_none n hred]
          exact holdsLimit_pure t
      | some found =>
          obtain ⟨rule, args⟩ := found
          intro g c' tr hc hL
          rw [normalizeBy_of_some n hred]
          rcases Nat.lt_or_eq_of_le hL with hlt | rfl
          · have hplan : HoldsLimit L (c' + 1) ((rule.plan (argument args)).run
                (normalizeBy o Term.script n) (commit o Term.script t)) :=
              holdsLimit_run (ih (by omega)) t _
            rw [fire_counted (fun l hl => Option.some.inj hl ▸ hlt)]
            exact (hplan g (c' + 1) (tr.push (.fired rule t)) (Nat.le_refl _) hlt).mono
              (Nat.le_succ c')
          · rw [fire_exceeds]
            exact .exceeds rfl

/-- With a new budget and a nesting beyond the limit, normalization ends by the limit. -/
theorem endsBy_normalizeBy (o : Owner) (t : Term) (g : Guard String) (hn : L < n) :
    EndsBy L 0 (normalizeBy o Term.script n t ⟨g, .counted (some L) 0, #[]⟩) :=
  holdsLimit_normalizeBy (by omega) t g 0 #[] (Nat.le_refl 0) (Nat.zero_le L)

end

/-- **Runs with a limit end.**  With a new budget of limit `L`, every normalization returns
after `L` firings at most, or stops with a count of `L + 1`; and `L + 1` calls nested in
one another are enough for it, so that room for more changes nothing. -/
theorem limited_run_ends (o : Owner) (t : Term) (g : Guard String) (L : Nat) :
    ∃ b, Budget.ofLimit (some (.integer L)) = .ok b ∧
      (match normalize o (L + 1) t ⟨g, b, #[]⟩ with
        | .ok _ s => ∃ k ≤ L, s.budget.total = .integer (k : Nat)
        | .error e s =>
            e = .fault (.limitExceeded (.integer (L + 1)) (.integer L)) ∧
              s.budget.total = .integer (L + 1)) ∧
      ∀ extra, normalize o (L + 1 + extra) t ⟨g, b, #[]⟩ = normalize o (L + 1) t ⟨g, b, #[]⟩ := by
  have hend := endsBy_normalizeBy o t g (Nat.lt_succ_self L)
  refine ⟨_, Budget.ofLimit_natCast L, ?_, fun extra => ?_⟩
  · rw [normalize_eq]
    generalize normalizeBy o Term.script (L + 1) t ⟨g, .counted (some L) 0, #[]⟩ = result at *
    cases hend with
    | ok r _ hL hs => exact ⟨_, hL, congrArg Budget.total hs⟩
    | exceeds hs => exact ⟨rfl, congrArg Budget.total hs⟩
  · rw [normalize_eq, normalize_eq]
    exact normalizeBy_stable (by omega) hend.not_isTooDeep

end Evaluation

end Combinatory
