import Combinatory.Proofs.Ledger
import Combinatory.Proofs.Limits
import Mathlib.Data.Finset.Card

/-!
# The accounts of a run

A run counts in three places: the budget counts the firings, the trace has an event for each
firing and for each commit that was not new, and the guard has the commits that were new.  The
three agree, though each is written at another moment.  A firing that is one too many is counted
but not recorded; and a firing whose rule commits has its commit in the guard or as a fallback in
the trace, unless the run stops while the commit is due.

## Main definitions

* `Event.guardedFirings`, `Event.fallbacks`: the events that have to do with commits.
* `Guard.count`: how much an owner has committed.
* `Evaluation.Accounted`, `Evaluation.Audited`: the accounts of a run, and of one that stopped.

## Main results

* `Evaluation.ledger_accounts`: the accounts are an invariant of runs.
* `Evaluation.accounts_agree`: budget, trace and guard agree at the end of a run.
-/

namespace Combinatory

/-! ## Events and commits -/

namespace Event

/-- Whether an event is the firing of a rule that commits. -/
def isGuardedFiring : Event → Bool
  | fired rule _ => rule.commits
  | fallback _ => false

/-- Whether an event is a commit that was not new. -/
def isFallback : Event → Bool
  | fired _ _ => false
  | fallback _ => true

/-- The number of firings of rules that commit. -/
def guardedFirings (es : List Event) : Nat := es.countP isGuardedFiring

/-- The number of commits that were not new. -/
def fallbacks (es : List Event) : Nat := es.countP isFallback

theorem countP_push (p : Event → Bool) (tr : Array Event) (e : Event) :
    (tr.push e).toList.countP p = tr.toList.countP p + (p e).toNat := by
  cases h : p e <;> simp [h]

theorem firings_push (tr : Array Event) (e : Event) :
    firings (tr.push e).toList = firings tr.toList + e.isFiring.toNat :=
  countP_push isFiring tr e

theorem guardedFirings_push (tr : Array Event) (e : Event) :
    guardedFirings (tr.push e).toList = guardedFirings tr.toList + e.isGuardedFiring.toNat :=
  countP_push isGuardedFiring tr e

theorem fallbacks_push (tr : Array Event) (e : Event) :
    fallbacks (tr.push e).toList = fallbacks tr.toList + e.isFallback.toNat :=
  countP_push isFallback tr e

end Event

/-- The number of entries that an owner has committed. -/
def Guard.count {α : Type} [DecidableEq α] (g : Guard α) (o : Owner) : Nat :=
  (g.entries o).toFinset.card

/-- A commit that is new adds one entry, any other none. -/
theorem Guard.count_commit {α : Type} [DecidableEq α] (g : Guard α) (o : Owner) (a : α) :
    (g.commit o a).2.count o = g.count o + (g.commit o a).1.toNat := by
  rw [count, entries_commit, commit_fst, count]
  by_cases h : a ∈ g.entries o <;> simp [h]

/-- The firings that were counted when an evaluation stopped, but not recorded. -/
def Stop.unrecorded : Stop → Nat
  | fault _ => 1
  | tooDeep => 0

/-! ## Accounts -/

namespace Evaluation

open Event Term

variable {o : Owner} {g : Guard String} {c : Int} {due : Nat} {s : Run String} {e : Stop}

/-- The accounts of a run that began with the guard `g` and a count of `c`, and has `due` commits
still to make. -/
structure Accounted (o : Owner) (g : Guard String) (c : Int) (due : Nat) (s : Run String) :
    Prop where
  total : s.budget.total = .integer (c + firings s.trace.toList)
  commits : s.guard.count o + fallbacks s.trace.toList + due =
    g.count o + guardedFirings s.trace.toList

/-- The accounts of such a run where it stopped. -/
structure Audited (o : Owner) (g : Guard String) (c : Int) (e : Stop) (s : Run String) :
    Prop where
  total : s.budget.total = .integer (c + firings s.trace.toList + e.unrecorded)
  commits : s.guard.count o + fallbacks s.trace.toList ≤
    g.count o + guardedFirings s.trace.toList

/-- A run begins with balanced accounts. -/
theorem accounted_start (o : Owner) (g : Guard String) (limit : Option Number) (c : Int) :
    Accounted o g c 0 ⟨g, ⟨limit, .integer c⟩, #[]⟩ := by
  constructor <;> simp [firings, fallbacks, guardedFirings]

/-- A firing is counted and recorded, and its commit falls due. -/
theorem Accounted.fired {rule : Rule} {t : Term} {s' : Run String}
    (h : Accounted o g c due s) (hfired : Fired rule t s s') :
    Accounted o g c (due + rule.commits.toNat) s' := by
  obtain ⟨s₀, hpay, rfl⟩ := hfired
  obtain rfl := eq_of_pay hpay
  have hcommits := h.commits
  constructor
  · rw [firings_push, Budget.total_spend, h.total]
    simp [Number.one, isFiring, Int.add_assoc]
  · rw [fallbacks_push, guardedFirings_push]
    simp only [isFallback, isGuardedFiring, Bool.toNat_false]
    omega

/-- A commit goes into the guard, or into the trace. -/
theorem Accounted.committed (h : Accounted o g c (due + 1) s) (t : Term) :
    Accounted o g c due (last (commit o Term.script t s)) := by
  have hcommits := h.commits
  have hcount := s.guard.count_commit o t.script
  rw [commit_apply, last_ok]
  -- A commit that is new shows in the guard, any other in the trace.
  cases hfresh : (s.guard.commit o t.script).1 with
  | true =>
      rw [hfresh, Bool.toNat_true] at hcount
      refine ⟨h.total, ?_⟩
      simp only [if_true, hcount]
      omega
  | false =>
      rw [hfresh, Bool.toNat_false] at hcount
      simp only [Bool.false_eq_true, if_false]
      constructor
      · rw [firings_push]
        exact h.total
      · rw [fallbacks_push, guardedFirings_push, hcount]
        simp only [isFallback, isGuardedFiring, Bool.toNat_true, Bool.toNat_false]
        omega

/-- A firing that is refused is counted and not recorded. -/
theorem Accounted.refused {s' : Run String} (h : Accounted o g c due s)
    (hpay : pay s = .error e s') : Audited o g c e s' := by
  have hlast := last_pay s
  rw [hpay, last_error] at hlast
  subst hlast
  have hfault : e.unrecorded = 1 := by
    rw [pay_apply] at hpay
    cases hcheck : (s.budget.spend .one).check <;> rw [hcheck] at hpay <;> cases hpay
    rfl
  refine ⟨by simp [h.total, hfault, Number.one], ?_⟩
  have hcommits := h.commits
  dsimp only
  omega

/-- The accounts are an invariant of runs. -/
theorem ledger_accounts (o : Owner) (g : Guard String) (c : Int) :
    Ledger (Accounted o g c) (Audited o g c) o Term.script fun _ => True where
  down _ _ _ _ := trivial
  deep due s hs := by
    refine ⟨hs.total.trans (by simp [Stop.unrecorded]), ?_⟩
    have hcommits := hs.commits
    omega
  refuse _ _ _ _ hs hpay := hs.refused hpay
  fire _ _ _ _ _ hs hfired := hs.fired hfired
  commit _ t _ _ _ hs := hs.committed t

/-- **Every run has its accounts**, from whatever count and limit it begins with. -/
theorem closes_accounts (o : Owner) (nesting : Nat) (t : Term) (g : Guard String)
    (limit : Option Number) (c : Int) :
    Closes (Accounted o g c) (Audited o g c) 0
      (normalize o nesting t ⟨g, ⟨limit, .integer c⟩, #[]⟩) := by
  rw [normalize_eq]
  exact (ledger_accounts o g c).normalizeBy nesting t trivial 0 _ (accounted_start o g limit c)

/-- **Budget, trace and guard agree.**  With a new budget, a run that returns has counted as many
firings as it has recorded, and the entries that it has added to the guard and the fallbacks are
as many as the firings of rules that commit.  A run that is stopped by its limit has counted one
firing more than it has recorded, and has added no more than these firings account for. -/
theorem accounts_agree (o : Owner) (nesting : Nat) (t : Term) (g : Guard String)
    (limit : Option Number) (b : Budget) (hb : Budget.ofLimit limit = .ok b) :
    match normalize o nesting t ⟨g, b, #[]⟩ with
    | .ok _ s =>
        s.budget.total = .integer (firings s.trace.toList) ∧
          s.guard.count o + fallbacks s.trace.toList =
            g.count o + guardedFirings s.trace.toList
    | .error (.fault _) s =>
        s.budget.total = .integer (firings s.trace.toList + 1) ∧
          s.guard.count o + fallbacks s.trace.toList ≤
            g.count o + guardedFirings s.trace.toList
    | .error .tooDeep s =>
        s.budget.total = .integer (firings s.trace.toList) ∧
          s.guard.count o + fallbacks s.trace.toList ≤
            g.count o + guardedFirings s.trace.toList := by
  obtain rfl := Budget.eq_of_ofLimit hb
  have hends : Closes (Accounted o g 0) (Audited o g 0) 0
      (normalize o nesting t ⟨g, ⟨limit, .zero⟩, #[]⟩) := closes_accounts o nesting t g limit 0
  generalize normalize o nesting t ⟨g, ⟨limit, .zero⟩, #[]⟩ = result at hends
  cases result with
  | ok r s => exact ⟨by simpa using hends.total, hends.commits⟩
  | error e s =>
      cases e with
      | fault f => exact ⟨by simpa [Stop.unrecorded] using hends.total, hends.commits⟩
      | tooDeep => exact ⟨by simpa [Stop.unrecorded] using hends.total, hends.commits⟩

/-- Two runs of a redex that return: with a new guard, which has it afterwards, and with one that
had it before.  And a longer spine whose head is not normalized any more when the limit stops the
run, so that its commit is never made. -/
theorem accounts_agree_of_due :
    let main : Owner := .thread .main
    let t := app (app I K) S
    let g := (Guard.empty.commit main t.script).2
    let spine := app (app (app (app I K) S) S) S
    (∃ s, normalize main 2 t ⟨.empty, .unbounded, #[]⟩ = .ok (app K S) s ∧
      s.trace = #[fired .identityApplied t] ∧ s.guard.count main = 1 ∧
      s.guard.count main + fallbacks s.trace.toList =
        (Guard.empty : Guard String).count main + guardedFirings s.trace.toList) ∧
    (∃ s, normalize main 2 t ⟨g, .unbounded, #[]⟩ = .ok (app K S) s ∧
      s.trace = #[fired .identityApplied t, fallback t] ∧
      s.guard.count main + fallbacks s.trace.toList =
        g.count main + guardedFirings s.trace.toList) ∧
    ∃ b s, Budget.ofLimit (some (.integer 1)) = .ok b ∧
      normalize main 2 spine ⟨.empty, b, #[]⟩ = .error (.exceeds 1) s ∧
      s.trace = #[fired .nestedHead spine] ∧ s.guard = .empty ∧
      s.budget.total = .integer (firings s.trace.toList + 1) ∧
      s.guard.count main + fallbacks s.trace.toList ≤
        (Guard.empty : Guard String).count main + guardedFirings s.trace.toList := by
  intro main t g spine
  have hmem : t.script ∈ g.entries main :=
    (Guard.mem_entries_commit .empty main _ _).2 (.inl rfl)
  have hnew : t.script ∉ (Guard.empty : Guard String).entries main := List.not_mem_nil
  have hfirst : Evaluates main t .empty [.fired .identityApplied t] (app K S) g :=
    .fire rfl (.commit_new hnew (.normal rfl (.normal rfl (.normal rfl (.done t _ g)))))
  have hfresh : normalize main 2 t ⟨.empty, .unbounded, #[]⟩ =
      .ok (app K S) ⟨g, .counted none 1, #[.fired .identityApplied t]⟩ :=
    hfirst.normalize
  have he : Evaluates main t g [.fired .identityApplied t, .fallback t] (app K S) g :=
    .fire rfl (.commit_old hmem (.normal rfl (.normal rfl (.done t _ g))))
  have hagain : normalize main 2 t ⟨g, .unbounded, #[]⟩ =
      .ok (app K S) ⟨g, .counted none 1, #[.fired .identityApplied t, .fallback t]⟩ :=
    he.normalize
  have hcut : normalize main 2 spine ⟨.empty, .counted (some 1) 0, #[]⟩ =
      .error (.exceeds 1) ⟨.empty, .counted (some 1) 2, #[.fired .nestedHead spine]⟩ := rfl
  have hcommits := accounts_agree main 2 t .empty none .unbounded rfl
  have hreturns := accounts_agree main 2 t g none .unbounded rfl
  have hstops := accounts_agree main 2 spine .empty (some (.integer 1)) (.counted (some 1) 0) rfl
  rw [hfresh] at hcommits
  rw [hagain] at hreturns
  rw [hcut] at hstops
  exact ⟨⟨_, hfresh, rfl, rfl, hcommits.2⟩, ⟨_, hagain, rfl, hreturns.2⟩, _, _, rfl, hcut, rfl, rfl,
    hstops⟩

end Evaluation

end Combinatory
