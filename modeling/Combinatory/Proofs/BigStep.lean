import Combinatory.Proofs.Outcome

/-!
# Big steps

An evaluation that ends can be told without a bound on the nesting of its calls and
without a budget: which events happen on the way, what the result is, and how the guard
is left.  This is what a run returns, and a run returns it whenever the nesting and the
limit have room for the firings among the events: a call that has calls nested in it has
fired, so the firings bound the nesting too.

## Main definitions

* `Budget.counted`: the budgets that evaluations from the start go through.
* `Event.firings`: the number of firings among events.
* `Plan.Yields`, `Evaluates`: what a plan, or the normalization of a term, comes to.
* `Plan.Comes`, `Comes`: the same without the events.

## Main results

* `Evaluation.evaluates_of_normalizeBy`, `Evaluates.run`: big steps are the runs that
  return.
* `Evaluates.unique`: a big step has one outcome.
-/

namespace Combinatory

open Term

/-- An entry that is there is not new, and the guard stays as it is. -/
theorem Guard.commit_of_mem {α : Type} [DecidableEq α] {g : Guard α} {o : Owner} {a : α}
    (h : a ∈ g.entries o) : g.commit o a = (false, g) := if_pos h

/-- A budget that has counted `c` firings, with a limit or without one. -/
def Budget.counted (limit : Option Nat) (c : Nat) : Budget :=
  ⟨limit.map fun n : Nat => .integer n, .integer c⟩

/-- Whether a limit allows a number of firings in all. -/
def Budget.HasRoom (limit : Option Nat) (firings : Nat) : Prop := ∀ l ∈ limit, firings ≤ l

/-- Fewer firings need less room. -/
theorem Budget.HasRoom.mono {limit : Option Nat} {k k' : Nat} (h : HasRoom limit k')
    (hk : k ≤ k') : HasRoom limit k :=
  fun l hl => Nat.le_trans hk (h l hl)

/-- Without a limit there is room for everything. -/
theorem Budget.hasRoom_none (k : Nat) : HasRoom none k := fun _ h => nomatch h

/-- Whether an event is the firing of a rule. -/
def Event.isFiring : Event → Bool
  | fired _ _ => true
  | fallback _ => false

/-- The number of firings among events. -/
def Event.firings (es : List Event) : Nat := es.countP isFiring

/-- What the commit of a redex adds to the trace. -/
def Event.ofCommit (redex : Term) (fresh : Bool) : List Event :=
  if fresh then [] else [fallback redex]

namespace Event

@[simp] theorem firings_nil : firings [] = 0 := rfl

@[simp] theorem firings_append (es es' : List Event) :
    firings (es ++ es') = firings es + firings es' := List.countP_append

@[simp] theorem firings_fired_cons (rule : Rule) (t : Term) (es : List Event) :
    firings (fired rule t :: es) = firings es + 1 := List.countP_cons_of_pos rfl

@[simp] theorem firings_ofCommit (redex : Term) (fresh : Bool) :
    firings (ofCommit redex fresh) = 0 := by
  cases fresh <;> rfl

/-- A commit is not a firing. -/
theorem fired_notMem_ofCommit {rule : Rule} {t redex : Term} {fresh : Bool} :
    fired rule t ∉ ofCommit redex fresh := by
  cases fresh <;> simp [ofCommit]

end Event

open Event

/-- `Yields o redex p g es r h` says that the plan `p` for a redex, carried out for the
owner `o` with the guard `g`, comes to the result `r` and the guard `h` by the events
`es`. -/
inductive Plan.Yields (o : Owner) :
    Term → Plan Term → Guard String → List Event → Term → Guard String → Prop
  /-- A plan that is done. -/
  | done (redex r : Term) (g : Guard String) : Yields o redex (.done r) g [] r g
  /-- A commit, and what follows. -/
  | commit {redex : Term} {next : Bool → Plan Term} {g : Guard String} {es : List Event}
      {r : Term} {h : Guard String}
      (rest : Yields o redex (next (g.commit o redex.script).1) (g.commit o redex.script).2
        es r h) :
      Yields o redex (.commit next) g (ofCommit redex (g.commit o redex.script).1 ++ es) r h
  /-- A call for a term that no rule applies to, and what follows. -/
  | normal {redex t : Term} {next : Term → Plan Term} {g : Guard String} {es : List Event}
      {r : Term} {h : Guard String} (hred : t.redex? = none)
      (rest : Yields o redex (next t) g es r h) : Yields o redex (.call t next) g es r h
  /-- A call that fires a rule, and what follows. -/
  | fire {redex t : Term} {next : Term → Plan Term} {g : Guard String} {rule : Rule}
      {args : List Term} {es : List Event} {u : Term} {g' : Guard String}
      {es' : List Event} {r : Term} {h : Guard String}
      (hred : t.redex? = some (rule, args))
      (body : Yields o t (rule.plan (argument args)) g es u g')
      (rest : Yields o redex (next u) g' es' r h) :
      Yields o redex (.call t next) g (fired rule t :: es ++ es') r h

/-- `Evaluates o t g es r h` says that the normalization of `t` for the owner `o` with the
guard `g` comes to the result `r` and the guard `h` by the events `es`. -/
inductive Evaluates (o : Owner) :
    Term → Guard String → List Event → Term → Guard String → Prop
  /-- A term that no rule applies to. -/
  | normal {t : Term} (g : Guard String) (hred : t.redex? = none) : Evaluates o t g [] t g
  /-- A term that a rule fires at. -/
  | fire {t : Term} {g : Guard String} {rule : Rule} {args : List Term} {es : List Event}
      {r : Term} {h : Guard String} (hred : t.redex? = some (rule, args))
      (body : Plan.Yields o t (rule.plan (argument args)) g es r h) :
      Evaluates o t g (fired rule t :: es) r h

namespace Plan

variable {o : Owner} {redex t r : Term} {p : Plan Term} {g h : Guard String}
  {es : List Event}

/-- A plan that begins with a call comes to something when the call does, and what
follows does. -/
theorem yields_call {next : Term → Plan Term} : Yields o redex (.call t next) g es r h ↔
    ∃ es₁ u g' es₂, Evaluates o t g es₁ u g' ∧ Yields o redex (next u) g' es₂ r h ∧
      es = es₁ ++ es₂ := by
  constructor
  · intro hy
    cases hy with
    | normal hred rest => exact ⟨[], t, g, es, .normal g hred, rest, rfl⟩
    | fire hred body rest => exact ⟨_, _, _, _, .fire hred body, rest, rfl⟩
  · rintro ⟨es₁, u, g', es₂, hcall, hrest, rfl⟩
    cases hcall with
    | normal hred => exact .normal hred hrest
    | fire hred body => exact .fire hred body hrest

/-- A plan that begins with a commit comes to what follows it. -/
theorem yields_commit {next : Bool → Plan Term} : Yields o redex (.commit next) g es r h ↔
    ∃ es', Yields o redex (next (g.commit o redex.script).1) (g.commit o redex.script).2
        es' r h ∧ es = ofCommit redex (g.commit o redex.script).1 ++ es' := by
  constructor
  · intro hy
    cases hy with
    | commit rest => exact ⟨_, rest, rfl⟩
  · rintro ⟨es', hrest, rfl⟩
    exact .commit hrest

/-- A redex that is not in the guard takes the branch for a new commit. -/
theorem Yields.commit_new {next : Bool → Plan Term} (hnew : redex.script ∉ g.entries o)
    (rest : Yields o redex (next true) (g.commit o redex.script).2 es r h) :
    Yields o redex (.commit next) g es r h := by
  have hfresh : (g.commit o redex.script).1 = true := by simpa using hnew
  rw [← hfresh] at rest
  refine yields_commit.2 ⟨es, rest, ?_⟩
  rw [hfresh]
  rfl

/-- A redex that is in the guard takes the branch for a repeated commit. -/
theorem Yields.commit_old {next : Bool → Plan Term} (hold : redex.script ∈ g.entries o)
    (rest : Yields o redex (next false) g es r h) :
    Yields o redex (.commit next) g (.fallback redex :: es) r h := by
  refine yields_commit.2 ⟨es, ?_, ?_⟩
  · rw [Guard.commit_of_mem hold]
    exact rest
  · rw [Guard.commit_of_mem hold]
    rfl

end Plan

/-! ## Runs are big steps -/

namespace Evaluation

variable {o : Owner} {n : Nat} {t r : Term} {s s' : Run String}

/-- What the run of a plan returns is what the plan comes to, if the same holds of its
calls. -/
theorem yields_of_run {normalize : Term → Evaluation String Term} {redex : Term}
    (hcall : ∀ t s r s', normalize t s = .ok r s' → ∃ es, Evaluates o t s.guard es r s'.guard)
    {p : Plan Term} (h : p.run normalize (commit o Term.script redex) s = .ok r s') :
    ∃ es, p.Yields o redex s.guard es r s'.guard := by
  induction p generalizing s with
  | done b =>
      cases h
      exact ⟨[], .done redex r _⟩
  | call t next ih =>
      obtain ⟨u, s₁, hu, h⟩ := bind_eq_ok.1 h
      obtain ⟨es₁, hes₁⟩ := hcall t s u s₁ hu
      obtain ⟨es₂, hes₂⟩ := ih u h
      exact ⟨es₁ ++ es₂, Plan.yields_call.2 ⟨es₁, u, _, es₂, hes₁, hes₂, rfl⟩⟩
  | commit next ih =>
      obtain ⟨fresh, s₁, hc, h⟩ := bind_eq_ok.1 h
      rw [commit_apply] at hc
      cases hc
      obtain ⟨es, hes⟩ := ih _ h
      exact ⟨_, .commit hes⟩

/-- **What a normalization returns is what the term comes to**, whatever the budget is. -/
theorem evaluates_of_normalizeBy (h : normalizeBy o Term.script n t s = .ok r s') :
    ∃ es, Evaluates o t s.guard es r s'.guard := by
  refine normalizeBy_induction (P := fun t x => ∀ s r s', x s = .ok r s' →
    ∃ es, Evaluates o t s.guard es r s'.guard) ?_ ?_ ?_ n t s r s' h
  · intro t s r s' h
    cases h
  · intro t hred s r s' h
    cases h
    exact ⟨[], .normal _ hred⟩
  · intro normalize calls t rule args hred s r s' h
    obtain ⟨s₁, ⟨s₀, hpay, rfl⟩, hrun⟩ := fire_eq_ok.1 h
    obtain rfl := eq_of_pay hpay
    obtain ⟨es, hes⟩ := yields_of_run calls hrun
    exact ⟨_, .fire hred hes⟩

end Evaluation

/-! ## Big steps are runs -/

namespace Evaluation

variable {limit : Option Nat} {c : Nat} {g : Guard String}

/-- A commit adds its events to the trace. -/
theorem commit_events (o : Owner) (t : Term) (b : Budget) (tr : Array Event) :
    commit o Term.script t ⟨g, b, tr⟩ = .ok (g.commit o t.script).1
      ⟨(g.commit o t.script).2, b, tr ++ (ofCommit t (g.commit o t.script).1).toArray⟩ := by
  rw [commit_apply]
  cases (g.commit o t.script).1 <;> simp [ofCommit]

/-- A firing that the limit has room for is paid. -/
theorem pay_counted (hroom : Budget.HasRoom limit (c + 1)) (tr : Array Event) :
    pay ⟨g, .counted limit c, tr⟩ = .ok () ⟨g, .counted limit (c + 1), tr⟩ := by
  have hcheck : (Budget.counted limit (c + 1)).check = .ok () := by
    rw [Budget.check_eq_ok_iff]
    intro l hl
    obtain ⟨m, hm, rfl⟩ := Option.map_eq_some_iff.1 hl
    have := hroom m hm
    simp only [Budget.counted, Number.lt_integer, decide_eq_false_iff_not]
    omega
  have hspend : (⟨g, .counted limit c, tr⟩ : Run String).budget.spend .one =
      .counted limit (c + 1) := rfl
  rw [pay_apply, hspend, hcheck]

/-- A firing that the limit has room for begins with the plan of its rule. -/
theorem fire_counted {o : Owner} {normalize : Term → Evaluation String Term} {t : Term}
    {rule : Rule} {args : List Term} (hroom : Budget.HasRoom limit (c + 1))
    (tr : Array Event) :
    fire o Term.script normalize t rule args ⟨g, .counted limit c, tr⟩ =
      (rule.plan (argument args)).run normalize (commit o Term.script t)
        ⟨g, .counted limit (c + 1), tr.push (.fired rule t)⟩ := by
  rw [fire, bind_of_ok _ (pay_counted hroom tr), bind_of_ok _ (record_apply _ _)]

end Evaluation

section

variable {o : Owner} {redex t r : Term} {p : Plan Term} {g h : Guard String}
  {es : List Event} {n c : Nat} {limit : Option Nat}

open Evaluation

/-- A run returns what its plan comes to, if the nesting and the limit have room for the
firings. -/
theorem Plan.Yields.run (hy : p.Yields o redex g es r h) (hn : firings es < n)
    (hroom : Budget.HasRoom limit (c + firings es)) (tr : Array Event) :
    p.run (normalizeBy o Term.script n) (Evaluation.commit o Term.script redex)
        ⟨g, .counted limit c, tr⟩ =
      .ok r ⟨h, .counted limit (c + firings es), tr ++ es.toArray⟩ := by
  induction hy generalizing n c tr with
  | done redex r g => simp
  | @commit redex next g es r h rest ih =>
      simp only [firings_append, firings_ofCommit, Nat.zero_add] at hn hroom ⊢
      rw [run_commit, bind_of_ok _ (commit_events o redex _ tr), ih hn hroom]
      simp
  | @normal redex t next g es r h hred rest ih =>
      obtain ⟨m, rfl⟩ := Nat.exists_eq_add_of_lt hn
      rw [run_call, normalizeBy_of_none _ hred, bind_of_ok _ (pure_apply t _)]
      exact ih hn hroom tr
  | @fire redex t next g rule args es u g' es' r h hred body rest ihbody ihrest =>
      simp only [List.cons_append, firings_fired_cons, firings_append] at hn hroom ⊢
      -- The firing pays for the level of nesting that its plan is carried out in.
      obtain ⟨m, rfl⟩ : ∃ m, n = m + 1 := ⟨n - 1, by omega⟩
      have hcall : normalizeBy o Term.script (m + 1) t ⟨g, .counted limit c, tr⟩ =
          .ok u ⟨g', .counted limit (c + 1 + firings es),
            tr.push (.fired rule t) ++ es.toArray⟩ := by
        rw [normalizeBy_of_some m hred, fire_counted (hroom.mono (by omega))]
        exact ihbody (by omega) (hroom.mono (by omega)) _
      rw [run_call, bind_of_ok _ hcall, ihrest (by omega) (hroom.mono (by omega))]
      simp [Nat.add_assoc, Nat.add_comm]

/-- A normalization returns what the term comes to, if the nesting and the limit have room
for the firings. -/
theorem Evaluates.run (he : Evaluates o t g es r h) (hn : firings es < n)
    (hroom : Budget.HasRoom limit (c + firings es)) (tr : Array Event) :
    normalizeBy o Term.script n t ⟨g, .counted limit c, tr⟩ =
      .ok r ⟨h, .counted limit (c + firings es), tr ++ es.toArray⟩ := by
  have hy : Plan.Yields o t (.call t .done) g es r h :=
    Plan.yields_call.2 ⟨es, r, h, [], he, .done t r h, (List.append_nil es).symm⟩
  have hrun := hy.run hn hroom tr
  simp only [Plan.run_call, Plan.run_done, bind_pure] at hrun
  exact hrun

/-- Without a limit, normalization returns what the term comes to. -/
theorem Evaluates.normalize (he : Evaluates o t g es r h) :
    Evaluation.normalize o (firings es + 1) t ⟨g, .unbounded, #[]⟩ =
      .ok r ⟨h, .counted none (firings es), es.toArray⟩ := by
  have hrun := he.run (c := 0) (Nat.lt_succ_self _) (Budget.hasRoom_none _) #[]
  rw [Nat.zero_add, Array.empty_append] at hrun
  rw [normalize_eq]
  exact hrun

/-- What a term comes to is determined, with the guard and the events. -/
theorem Evaluates.unique {es' : List Event} {r' : Term} {h' : Guard String}
    (he : Evaluates o t g es r h) (he' : Evaluates o t g es' r' h') :
    es = es' ∧ r = r' ∧ h = h' := by
  -- Both are the same run, with nesting for either.
  have hrun := he.run (n := firings es + firings es' + 1) (c := 0) (by omega)
    (Budget.hasRoom_none _) #[]
  rw [he'.run (by omega) (Budget.hasRoom_none _) #[]] at hrun
  simp only [Array.empty_append, EStateM.Result.ok.injEq, Run.mk.injEq] at hrun
  exact ⟨(List.toArray_inj hrun.2.2.2).symm, hrun.1.symm, hrun.2.1.symm⟩

end

/-! ## Big steps without their events -/

/-- `Comes o t g r h` says that the normalization of `t` for the owner `o` with the guard `g`
comes to the result `r` and the guard `h`. -/
def Comes (o : Owner) (t : Term) (g : Guard String) (r : Term) (h : Guard String) : Prop :=
  ∃ es, Evaluates o t g es r h

/-- A plan for a redex comes to a result and a guard. -/
def Plan.Comes (o : Owner) (redex : Term) (p : Plan Term) (g : Guard String) (r : Term)
    (h : Guard String) : Prop :=
  ∃ es, p.Yields o redex g es r h

section

variable {o : Owner} {redex t u r : Term} {g k h : Guard String}

namespace Plan

theorem comes_done (o : Owner) (redex r : Term) (g : Guard String) :
    Comes o redex (.done r) g r g := ⟨[], .done redex r g⟩

theorem comes_done_iff : Comes o redex (.done u) g r h ↔ r = u ∧ h = g := by
  constructor
  · rintro ⟨es, hy⟩
    cases hy
    exact ⟨rfl, rfl⟩
  · rintro ⟨rfl, rfl⟩
    exact comes_done o redex r h

theorem comes_call {next : Term → Plan Term} (hcall : Combinatory.Comes o t g u k)
    (hrest : Comes o redex (next u) k r h) : Comes o redex (.call t next) g r h := by
  obtain ⟨es, hcall⟩ := hcall
  obtain ⟨es', hrest⟩ := hrest
  exact ⟨es ++ es', yields_call.2 ⟨es, u, k, es', hcall, hrest, rfl⟩⟩

/-- A plan that begins with a call comes to something when the call does, and what
follows does. -/
theorem comes_call_iff {next : Term → Plan Term} : Comes o redex (.call t next) g r h ↔
    ∃ u k, Combinatory.Comes o t g u k ∧ Comes o redex (next u) k r h := by
  constructor
  · rintro ⟨es, hy⟩
    obtain ⟨es₁, u, k, es₂, hcall, hrest, -⟩ := yields_call.1 hy
    exact ⟨u, k, ⟨es₁, hcall⟩, es₂, hrest⟩
  · rintro ⟨u, k, hcall, hrest⟩
    exact comes_call hcall hrest

/-- A call that is known to come to something can be left out. -/
theorem comes_call_iff_of_comes {next : Term → Plan Term} (hcall : Combinatory.Comes o t g u k) :
    Comes o redex (.call t next) g r h ↔ Comes o redex (next u) k r h := by
  refine comes_call_iff.trans ⟨?_, fun hrest => ⟨u, k, hcall, hrest⟩⟩
  rintro ⟨u', k', ⟨es', hcall'⟩, hrest⟩
  obtain ⟨es, hcall⟩ := hcall
  obtain ⟨-, rfl, rfl⟩ := hcall.unique hcall'
  exact hrest

/-- A commit is answered by the guard. -/
theorem comes_commit_iff {next : Bool → Plan Term} : Comes o redex (.commit next) g r h ↔
    Comes o redex (next (g.commit o redex.script).1) (g.commit o redex.script).2 r h := by
  constructor
  · rintro ⟨es, hy⟩
    obtain ⟨es', hrest, -⟩ := yields_commit.1 hy
    exact ⟨es', hrest⟩
  · rintro ⟨es, hrest⟩
    exact ⟨_, .commit hrest⟩

theorem comes_commit {next : Bool → Plan Term}
    (hrest : Comes o redex (next (g.commit o redex.script).1) (g.commit o redex.script).2 r h) :
    Comes o redex (.commit next) g r h :=
  comes_commit_iff.2 hrest

/-- A redex that is not in the guard takes the branch for a new commit. -/
theorem comes_commit_new_iff {next : Bool → Plan Term} (hnew : redex.script ∉ g.entries o) :
    Comes o redex (.commit next) g r h ↔
      Comes o redex (next true) (g.commit o redex.script).2 r h := by
  have hfresh : (g.commit o redex.script).1 = true := by simpa using hnew
  rw [comes_commit_iff, hfresh]

theorem comes_commit_new {next : Bool → Plan Term} (hnew : redex.script ∉ g.entries o)
    (hrest : Comes o redex (next true) (g.commit o redex.script).2 r h) :
    Comes o redex (.commit next) g r h :=
  (comes_commit_new_iff hnew).2 hrest

/-- A redex that is in the guard takes the branch for a repeated commit. -/
theorem comes_commit_old {next : Bool → Plan Term} (hold : redex.script ∈ g.entries o)
    (hrest : Comes o redex (next false) g r h) : Comes o redex (.commit next) g r h := by
  obtain ⟨es, hrest⟩ := hrest
  exact ⟨_, .commit_old hold hrest⟩

end Plan

namespace Comes

/-- A term that no rule applies to comes to itself. -/
theorem of_redex?_eq_none (o : Owner) (g : Guard String) (hred : t.redex? = none) :
    Comes o t g t g := ⟨[], .normal g hred⟩

/-- A redex comes to what the plan of its rule comes to. -/
theorem iff_of_redex?_eq_some {rule : Rule} {args : List Term}
    (hred : t.redex? = some (rule, args)) :
    Comes o t g r h ↔ (rule.plan (argument args)).Comes o t g r h := by
  constructor
  · rintro ⟨es, he⟩
    cases he with
    | normal hnone =>
        rw [hred] at hnone
        cases hnone
    | fire hred' body =>
        rw [hred] at hred'
        cases hred'
        exact ⟨_, body⟩
  · rintro ⟨es, hy⟩
    exact ⟨_, .fire hred hy⟩

theorem of_redex?_eq_some {rule : Rule} {args : List Term} (hred : t.redex? = some (rule, args))
    (h : (rule.plan (argument args)).Comes o t g r k) : Comes o t g r k :=
  (iff_of_redex?_eq_some hred).2 h

/-- What a term comes to is determined. -/
theorem unique {r' : Term} {h' : Guard String} (hc : Comes o t g r h) (hc' : Comes o t g r' h') :
    r = r' ∧ h = h' := by
  obtain ⟨es, he⟩ := hc
  obtain ⟨es', he'⟩ := hc'
  exact (he.unique he').2

end Comes

end

end Combinatory
