import Combinatory.Proofs.CallGraph

/-!
# Where rules fire

The graph of calls says where rules fire.  A trace only grows, and what a run does before
a call is the same under every limit that has room for it, so a rule that fires in a call
below a normalization fires under some limit (`fires_of_reachable`).  Conversely whatever
fires in a run, fires in a call below it (`firesBelow_of_fired`).

## Main definitions

* `Evaluation.Grows`: computations that only add to the trace.
* `Fires`: a rule fires at a redex, under some limit.
* `FiresBelow`: a rule applies to a redex that is called.

## Main results

* `fires_of_reachable`, `fires_of_asks`: the events of the graph are events of runs.
* `firesBelow_of_fired`: the firings of runs are in the graph.
-/

namespace Combinatory

open Relation Term Event

namespace Evaluation

/-! ## Traces grow -/

section

variable {α β γ : Type} {x : Evaluation α β} {f : β → Evaluation α γ}

/-- A computation only adds to the trace, also when it stops. -/
def Grows (x : Evaluation α β) : Prop :=
  ∀ s, s.trace.toList <+: (last (x s)).trace.toList

theorem grows_pure (b : β) : Grows (pure b : Evaluation α β) := fun _ => List.prefix_rfl

theorem grows_pay : Grows (pay : Evaluation α Unit) := by
  intro s
  have htrace : (last (pay s)).trace = s.trace := by rw [last_pay]
  exact htrace ▸ List.prefix_rfl

theorem grows_record (e : Event) : Grows (record e : Evaluation α Unit) := by
  intro s
  simp [record_apply]

theorem grows_commit [DecidableEq α] (o : Owner) (entry : Term → α) (t : Term) :
    Grows (commit o entry t) := by
  intro s
  rw [commit_apply]
  cases (s.guard.commit o (entry t)).1 <;> simp

/-- The trace of the first part of a sequence is the beginning of the whole. -/
theorem prefix_last_bind (hf : ∀ b, Grows (f b)) (s : Run α) :
    (last (x s)).trace.toList <+: (last ((x >>= f) s)).trace.toList := by
  cases h : x s with
  | ok b s' =>
      rw [bind_of_ok f h]
      exact hf b s'
  | error e s' =>
      have hsame : (x >>= f) s = .error e s' := bind_of_error f h
      exact hsame ▸ List.prefix_rfl

theorem Grows.bind (hx : Grows x) (hf : ∀ b, Grows (f b)) : Grows (x >>= f) :=
  fun s => (hx s).trans (prefix_last_bind hf s)

theorem grows_run {normalize : Term → Evaluation α Term} {register : Evaluation α Bool}
    (hcall : ∀ t, Grows (normalize t)) (hcommit : Grows register) (p : Plan β) :
    Grows (p.run normalize register) := by
  induction p with
  | done b => exact grows_pure b
  | call t next ih => exact (hcall t).bind ih
  | commit next ih => exact hcommit.bind ih

theorem grows_normalizeBy [DecidableEq α] (o : Owner) (entry : Term → α) (n : Nat)
    (t : Term) : Grows (normalizeBy o entry n t) := by
  refine normalizeBy_induction (P := fun _ x => Grows x) ?_ ?_ ?_ n t
  · exact fun _ _ => List.prefix_rfl
  · exact fun t _ => grows_pure t
  · intro normalize calls t rule args _
    exact grows_pay.bind fun _ => (grows_record _).bind fun _ =>
      grows_run calls (grows_commit o entry t) _

end

/-- The trace in which the normalization of a term with a guard ends, where the budget has
counted `c` firings before and `tr` is what was recorded. -/
def events (o : Owner) (n : Nat) (limit : Option Nat) (c : Nat)
    (x : Term × Guard String) (tr : Array Event) : List Event :=
  (last (normalizeBy o Term.script n x.1 ⟨x.2, .counted limit c, tr⟩)).trace.toList

end Evaluation

open Evaluation

/-- A rule fires at `u` when `t` is normalized for an owner, with a guard and under some
limit. -/
def Fires (o : Owner) (t : Term) (g : Guard String) (u : Term) : Prop :=
  ∃ (l : Nat) (rule : Rule), fired rule u ∈ (last (normalize o
    (Budget.counted (some l) 0).nesting t ⟨g, .counted (some l) 0, #[]⟩)).trace

section

variable {o : Owner} {redex t u r : Term} {p : Plan Term} {g h : Guard String}
  {es : List Event} {n c : Nat} {limit : Option Nat} {x y : Term × Guard String}
  {rule : Rule} {args : List Term}

/-! ## From calls to runs -/

/-- What is recorded in a call of a plan is recorded in the run of the plan. -/
theorem Plan.Asks.prefix_run (ha : p.Asks o redex g es u h) (hn : firings es < n)
    (hroom : Budget.HasRoom limit (c + firings es)) (tr : Array Event) :
    events o n limit (c + firings es) (u, h) (tr ++ es.toArray) <+:
      (last (p.run (normalizeBy o Term.script n) (Evaluation.commit o Term.script redex)
        ⟨g, .counted limit c, tr⟩)).trace.toList := by
  have hgrows : ∀ p : Plan Term, Grows (p.run (normalizeBy o Term.script n)
      (Evaluation.commit o Term.script redex)) :=
    grows_run (grows_normalizeBy o Term.script n) (grows_commit o Term.script redex)
  induction ha generalizing c tr with
  | here t next g =>
      simp only [firings_nil, Nat.add_zero, Array.append_empty]
      exact prefix_last_bind (fun r => hgrows (next r)) _
  | call first rest ih =>
      simp only [firings_append] at hn hroom ⊢
      rw [run_call, bind_of_ok _ (first.run (by omega) (hroom.mono (by omega)) tr)]
      rw [← Nat.add_assoc] at hroom ⊢
      rw [← List.append_toArray, ← Array.append_assoc]
      exact ih (by omega) hroom _
  | commit rest ih =>
      simp only [firings_append, firings_ofCommit, Nat.zero_add] at hn hroom ⊢
      rw [run_commit, bind_of_ok _ (commit_events o redex _ tr)]
      rw [← List.append_toArray, ← Array.append_assoc]
      exact ih hn hroom _

/-- What is recorded in the call for a redex begins with the firing, and then has what is
recorded in the calls of the plan. -/
theorem prefix_events_of_asks (hred : t.redex? = some (rule, args))
    (ha : (rule.plan (argument args)).Asks o t g es u h) (hn : firings es < n)
    (hroom : Budget.HasRoom limit (c + (firings es + 1))) (tr : Array Event) :
    events o n limit (c + (firings es + 1)) (u, h)
        (tr.push (.fired rule t) ++ es.toArray) <+:
      events o (n + 1) limit c (t, g) tr := by
  have hrun := ha.prefix_run (c := c + 1) hn (hroom.mono (by omega))
    (tr.push (.fired rule t))
  have hfire : events o (n + 1) limit c (t, g) tr = (last ((rule.plan (argument args)).run
      (normalizeBy o Term.script n) (Evaluation.commit o Term.script t)
      ⟨g, .counted limit (c + 1), tr.push (.fired rule t)⟩)).trace.toList := by
    rw [events, normalizeBy_of_some n hred, fire_counted (hroom.mono (by omega))]
  rwa [hfire, Nat.add_comm (firings es), ← Nat.add_assoc]

/-- What is recorded in a call below another is recorded in that one, if there is room for
the `k` firings in between. -/
theorem exists_prefix_events (hreach : ReflTransGen (Calls o) x y) :
    ∃ k depth, depth ≤ k ∧ ∀ n limit c tr, k < n →
      Budget.HasRoom limit (c + k) → ∃ tr',
        events o n limit (c + k) y tr' <+: events o (n + depth) limit c x tr := by
  induction hreach using ReflTransGen.head_induction_on with
  | refl => exact ⟨0, 0, Nat.le_refl 0, fun n limit c tr _ _ => ⟨tr, List.prefix_rfl⟩⟩
  | @head x z hxz _ ih =>
      obtain ⟨k, depth, hdepth, ih⟩ := ih
      obtain ⟨rule, args, es, hred, ha⟩ := hxz
      refine ⟨firings es + 1 + k, depth + 1, by omega, ?_⟩
      intro n limit c tr hn hroom
      have hstep := prefix_events_of_asks (n := n + depth) (c := c) hred ha
        (by omega) (hroom.mono (by omega)) tr
      rw [← Nat.add_assoc] at hroom ⊢
      obtain ⟨tr', hrest⟩ := ih n limit (c + (firings es + 1))
        (tr.push (fired rule x.1) ++ es.toArray) (by omega) hroom
      exact ⟨tr', hrest.trans hstep⟩

/-- What is recorded in every call `x` with room for `k` firings is recorded in a
normalization that calls it, under some limit. -/
theorem fires_of_mem_events (rule : Rule) (hreach : ReflTransGen (Calls o) (t, g) x)
    (k : Nat) (hmem : ∀ n limit c tr, k < n → Budget.HasRoom limit (c + k) →
      fired rule u ∈ events o n limit c x tr) : Fires o t g u := by
  obtain ⟨j, depth, hdepth, hpath⟩ := exists_prefix_events hreach
  -- A limit has one level of nesting more than it allows firings, so one that allows all
  -- the firings before and in the call is nested deep enough.
  obtain ⟨n, hn⟩ : ∃ n, n + depth = j + k + 1 + 1 + depth := ⟨_, rfl⟩
  have hroom : Budget.HasRoom (some (j + k + 1 + depth)) (0 + j + k) := by
    intro l hl
    cases hl
    omega
  obtain ⟨tr', hprefix⟩ := hpath n (some (j + k + 1 + depth)) 0 #[] (by omega)
    (hroom.mono (by omega))
  have hfired := hprefix.subset (hmem n _ (0 + j) tr' (by omega) hroom)
  refine ⟨j + k + 1 + depth, rule, ?_⟩
  have hnesting : (Budget.counted (some (j + k + 1 + depth)) 0).nesting = n + depth := by
    simp only [Budget.nesting, Budget.counted, Option.map_some, Option.bind_some, Number.toInt?]
    omega
  rw [hnesting, normalize_eq, ← Array.mem_toList_iff]
  exact hfired

/-- **A rule that fires in a call below a normalization fires under some limit.** -/
theorem fires_of_reachable (hreach : ReflTransGen (Calls o) (t, g) (u, h))
    (hred : u.redex? = some (rule, args)) : Fires o t g u := by
  refine fires_of_mem_events rule hreach 1 fun n limit c tr hn hroom => ?_
  obtain ⟨n, rfl⟩ : ∃ m, n = m + 1 := ⟨n - 1, by omega⟩
  rw [events, normalizeBy_of_some n hred, fire_counted hroom]
  have hgrows := grows_run (grows_normalizeBy o Term.script n) (grows_commit o Term.script u)
    (rule.plan (argument args))
  exact (hgrows _).subset (by simp)

/-- What fires before a call of a plan fires under some limit, too. -/
theorem fires_of_asks {v w : Term} {rule' : Rule} {h' : Guard String}
    (hreach : ReflTransGen (Calls o) (t, g) (u, h)) (hred : u.redex? = some (rule, args))
    (ha : (rule.plan (argument args)).Asks o u h es v h') (hw : fired rule' w ∈ es) :
    Fires o t g w := by
  refine fires_of_mem_events rule' hreach (firings es + 1) fun n limit c tr hn hroom => ?_
  obtain ⟨n, rfl⟩ : ∃ m, n = m + 1 := ⟨n - 1, by omega⟩
  have hprefix := prefix_events_of_asks hred ha (Nat.lt_of_succ_lt_succ hn) hroom tr
  have hgrows := grows_normalizeBy o Term.script n v
    ⟨h', .counted limit (c + (firings es + 1)), tr.push (.fired rule u) ++ es.toArray⟩
  exact hprefix.subset (hgrows.subset (by simp [hw]))

/-! ## From runs to calls -/

/-- A rule applies to `u`, and `u` is called below the normalization of a term with a
guard. -/
def FiresBelow (o : Owner) (x : Term × Guard String) (rule : Rule) (u : Term) : Prop :=
  ∃ args h, u.redex? = some (rule, args) ∧ ReflTransGen (Calls o) x (u, h)

/-- What fires below a call fires below the caller. -/
theorem FiresBelow.head (hf : FiresBelow o y rule u) (hxy : Calls o x y) :
    FiresBelow o x rule u := by
  obtain ⟨args, h, hred, hreach⟩ := hf
  exact ⟨args, h, hred, .head hxy hreach⟩

/-- What fires while a plan is carried out, fires below one of its calls, if what fires in
the calls fires below them. -/
theorem exists_asks_of_fired
    (ih : ∀ t s, fired rule u ∈ (last (normalizeBy o Term.script n t s)).trace →
      fired rule u ∈ s.trace ∨ FiresBelow o (t, s.guard) rule u)
    {s : Run String} (he : fired rule u ∈ (last (p.run (normalizeBy o Term.script n)
      (Evaluation.commit o Term.script redex) s)).trace) :
    fired rule u ∈ s.trace ∨
      ∃ es x, p.Asks o redex s.guard es x.1 x.2 ∧ FiresBelow o x rule u := by
  induction p generalizing s with
  | done b => exact .inl he
  | call t next ihnext =>
      have hcall : fired rule u ∈ (last (normalizeBy o Term.script n t s)).trace →
          fired rule u ∈ s.trace ∨ ∃ es x,
            (Plan.call t next).Asks o redex s.guard es x.1 x.2 ∧ FiresBelow o x rule u := by
        intro he
        rcases ih t s he with he | hbelow
        · exact .inl he
        · exact .inr ⟨[], (t, s.guard), .here t next s.guard, hbelow⟩
      rw [Plan.run_call] at he
      cases hrun : normalizeBy o Term.script n t s with
      | error e s' =>
          rw [bind_of_error _ hrun] at he
          rw [hrun] at hcall
          exact hcall he
      | ok r s' =>
          rw [bind_of_ok _ hrun] at he
          rw [hrun] at hcall
          rcases ihnext r he with he | ⟨es', x, ha, hbelow⟩
          · exact hcall he
          · obtain ⟨es, hfirst⟩ := evaluates_of_normalizeBy hrun
            exact .inr ⟨es ++ es', x, .call hfirst ha, hbelow⟩
  | commit next ihnext =>
      obtain ⟨g, b, tr⟩ := s
      rw [Plan.run_commit, bind_of_ok _ (commit_events o redex b tr)] at he
      rcases ihnext _ he with he | ⟨es, x, ha, hbelow⟩
      · rcases Array.mem_append.1 he with he | he
        · exact .inl he
        · exact absurd (List.mem_toArray.1 he) fired_notMem_ofCommit
      · exact .inr ⟨_, x, .commit ha, hbelow⟩

/-- **What fires in a run, fires in a call below it.** -/
theorem firesBelow_of_fired {s : Run String}
    (he : fired rule u ∈ (last (normalizeBy o Term.script n t s)).trace) :
    fired rule u ∈ s.trace ∨ FiresBelow o (t, s.guard) rule u := by
  induction n generalizing t s with
  | zero => exact .inl he
  | succ n ih =>
      cases hred : t.redex? with
      | none =>
          rw [normalizeBy_of_none n hred] at he
          exact .inl he
      | some found =>
          obtain ⟨rule', args⟩ := found
          rw [normalizeBy_of_some n hred, fire] at he
          cases hpay : pay s with
          | error e s' =>
              have hlast := last_pay s
              rw [hpay] at hlast
              rw [bind_of_error _ hpay, last_error, ← last_error e s', hlast] at he
              exact .inl he
          | ok _ s' =>
              rw [bind_of_ok _ hpay, bind_of_ok _ (record_apply _ _)] at he
              obtain rfl := eq_of_pay hpay
              rcases exists_asks_of_fired (fun _ _ => ih) he with he | ⟨es, x, ha, hbelow⟩
              · rcases Array.mem_push.1 he with he | he
                · exact .inl he
                · cases he
                  exact .inr ⟨args, s.guard, hred, .refl⟩
              · exact .inr (hbelow.head ⟨rule', args, es, hred, ha⟩)

end

end Combinatory
