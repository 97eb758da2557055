import Combinatory.Proofs.Limits
import Combinatory.Proofs.LoopBreaking

/-!
# What a limit cuts off

A limit does not steer a run: up to the firing that is one too many, the run with a limit
is the run without one.  To say so of the state in which it stops, the run without a limit
is watched: `Evaluation.watch` is the engine again, with a list of the states in which it
is about to fire, and watching changes nothing else (`Evaluation.run'_watch`).

A watched computation without a limit is then compared with the same computation under
every limit (`Evaluation.Foretells`).  That is done for each of the steps that evaluations
are made of, and for sequences of them; for plans and for normalization it follows.

## Main definitions

* `Evaluation.Watched`, `Evaluation.watch`: the engine that notes where it fires.
* `Evaluation.CutsAt`: a noted state is where a limit cuts a computation.
* `Evaluation.Foretells`: what a watched run without a limit says of the runs with one.

## Main results

* `Evaluation.run'_watch`: watching a normalization does not change it.
* `Evaluation.foretells_watch`: a watched normalization says what all limits do.
* `Evaluation.limit_only_cuts`: a limit cuts a run and does nothing else.
-/

namespace Combinatory

open Term Event

/-- A state with another budget: with a limit or without one, and a count of `c`. -/
def Run.under {α : Type} (s : Run α) (limit : Option Nat) (c : Nat) : Run α :=
  { s with budget := .counted limit c }

/-- A state with the budget that it has. -/
theorem Run.under_of_budget {α : Type} {s : Run α} {limit : Option Nat} {c : Nat}
    (h : s.budget = .counted limit c) : s.under limit c = s := by
  obtain ⟨g, b, tr⟩ := s
  obtain rfl : b = _ := h
  rfl

namespace Evaluation

/-! ## Watching -/

/-- Evaluations that note states on the way. -/
abbrev Watched (β : Type) := StateT (List (Run String)) (Evaluation String) β

/-- Pay for a firing and record it, and note the state before. -/
def beginFiring (rule : Rule) (t : Term) : Watched Unit := do
  let s ← getThe (Run String)
  modify (· ++ [s])
  (pay : Evaluation String Unit)
  (record (.fired rule t) : Evaluation String Unit)

/-- Normalization by shape, where every state is noted in which a rule is about to fire. -/
def watch (o : Owner) : Nat → Term → Watched Term
  | 0, _ => throw .tooDeep
  | nesting + 1, t =>
      match t.redex? with
      | none => return t
      | some (rule, args) => do
          beginFiring rule t
          (rule.plan (argument args)).run (watch o nesting) (commit o Term.script t)

variable {β γ : Type} {o : Owner} {t : Term}

theorem run'_bind {w : Watched β} {f : β → Watched γ} {x : Evaluation String β}
    {f' : β → Evaluation String γ} (hw : ∀ l, w.run' l = x) (hf : ∀ b l, (f b).run' l = f' b)
    (l : List (Run String)) : (w >>= f).run' l = x >>= f' := by
  have hf : ∀ p : β × List (Run String), (f p.1).run' p.2 = f' p.1 := fun p => hf p.1 p.2
  rw [← hw l]
  simp only [StateT.run'_eq, StateT.run_bind, map_bind, bind_map_left] at hf ⊢
  simp only [hf]

theorem run'_lift (x : Evaluation String β) (l : List (Run String)) :
    (liftM x : Watched β).run' l = x := by
  simp

theorem run'_beginFiring (rule : Rule) (t : Term) (l : List (Run String)) :
    (beginFiring rule t).run' l = pay >>= fun _ => record (.fired rule t) := by
  funext s
  exact congrFun (run'_bind (run'_lift pay) (fun _ => run'_lift (record (.fired rule t)))
    (l ++ [s])) s

theorem run'_run {normalize : Term → Watched Term} {normalize' : Term → Evaluation String Term}
    (hcall : ∀ t l, (normalize t).run' l = normalize' t) (x : Evaluation String Bool)
    (p : Plan β) (l : List (Run String)) :
    (p.run normalize (liftM x)).run' l = p.run normalize' x := by
  induction p generalizing l with
  | done b => simp
  | call t next ih => exact run'_bind (hcall t) ih l
  | commit next ih => exact run'_bind (run'_lift x) ih l

/-- **Watching a normalization does not change it.** -/
theorem run'_watch (n : Nat) (t : Term) (l : List (Run String)) :
    (watch o n t).run' l = normalizeBy o Term.script n t := by
  induction n generalizing t l with
  | zero => rfl
  | succ n ih =>
      cases hred : t.redex? with
      | none =>
          rw [normalizeBy_of_none n hred, watch, hred]
          simp
      | some found =>
          obtain ⟨rule, args⟩ := found
          rw [normalizeBy_of_some n hred, watch, hred, fire, ← bind_assoc]
          exact run'_bind (run'_beginFiring rule t) (fun _ => run'_run ih _ _) l

/-- A normalization that returns also returns when it is watched. -/
theorem exists_watch_of_normalizeBy {n : Nat} {s s' : Run String} {r : Term}
    (h : normalizeBy o Term.script n t s = .ok r s') :
    ∃ us, (watch o n t).run [] s = .ok (r, us) s' := by
  rw [← run'_watch n t [], StateT.run'_eq, map_eq_pure_bind, bind_eq_ok] at h
  obtain ⟨⟨r', us⟩, s₁, hw, hr⟩ := h
  cases hr
  exact ⟨us, hw⟩

/-- A computation that is not watched notes nothing. -/
theorem run_lift_eq_ok {x : Evaluation String β} {l l' : List (Run String)}
    {s s' : Run String} {b : β} :
    (liftM x : Watched β).run l s = .ok (b, l') s' ↔ x s = .ok b s' ∧ l' = l := by
  have hrun : (liftM x : Watched β).run l s = (x >>= fun b => pure (b, l)) s := rfl
  rw [hrun, bind_eq_ok]
  constructor
  · rintro ⟨b', s₁, hx, h⟩
    cases h
    exact ⟨hx, rfl⟩
  · rintro ⟨hx, rfl⟩
    exact ⟨b, s', hx, rfl⟩

/-- A sequence of watched computations returns when both its parts do. -/
theorem run_bind_eq_ok {w : Watched β} {f : β → Watched γ} {l : List (Run String)}
    {s s' : Run String} {p : γ × List (Run String)} :
    (w >>= f).run l s = .ok p s' ↔
      ∃ b l₁ s₁, w.run l s = .ok (b, l₁) s₁ ∧ (f b).run l₁ s₁ = .ok p s' := by
  rw [StateT.run_bind, bind_eq_ok]
  constructor
  · rintro ⟨⟨b, l₁⟩, s₁, hw, hf⟩
    exact ⟨b, l₁, s₁, hw, hf⟩
  · rintro ⟨b, l₁, s₁, hw, hf⟩
    exact ⟨(b, l₁), s₁, hw, hf⟩

/-! ## Cuts -/

/-- A computation that comes from `s` to `s'` without a limit is cut at `u` by a limit of
`i` steps more than the count: it stops with the guard and the trace of `u`, where `i`
firings have been recorded, and where the next event is a firing. -/
structure CutsAt (x : Evaluation String β) (s : Run String) (c i : Nat)
    (u s' : Run String) : Prop where
  stops : x (s.under (some (c + i)) c) =
    .error (.exceeds (c + i)) (u.under (some (c + i)) (c + i + 1))
  firings : firings u.trace.toList = firings s.trace.toList + i
  next : ∃ rule t, u.trace.toList ++ [fired rule t] <+: s'.trace.toList

/-- What is told by a computation that comes from `s`, with a count of `c` and no limit, to
the result `b` and the state `s'`, when the states `us` are noted on the way: as many
firings are counted and recorded; a limit that has room for them changes nothing; and
every other limit cuts the computation at one of the noted states. -/
structure Tells (x : Evaluation String β) (s : Run String) (c : Nat) (b : β)
    (us : List (Run String)) (s' : Run String) : Prop where
  count : s'.budget = .counted none (c + us.length)
  firings : firings s'.trace.toList = firings s.trace.toList + us.length
  grows : s.trace.toList <+: s'.trace.toList
  within : ∀ L, c + us.length ≤ L →
    x (s.under (some L) c) = .ok b (s'.under (some L) (c + us.length))
  cut : ∀ i u, us[i]? = some u → CutsAt x s c i u s'

/-- A watched computation that returns without a limit says what a computation does under
every limit. -/
def Foretells (w : Watched β) (x : Evaluation String β) : Prop :=
  ∀ l s c b l' s', w.run l (s.under none c) = .ok (b, l') s' →
    ∃ us, l' = l ++ us ∧ Tells x s c b us s'

section

variable {x : Evaluation String β} {f : β → Evaluation String γ} {s s₁ s' u : Run String}
  {c i k L : Nat} {b : β}

/-- A sequence is cut where its first part is. -/
theorem CutsAt.bind (h : CutsAt x s c i u s₁) (hgrows : s₁.trace.toList <+: s'.trace.toList) :
    CutsAt (x >>= f) s c i u s' where
  stops := bind_of_error f h.stops
  firings := h.firings
  next := by
    obtain ⟨rule, t, hnext⟩ := h.next
    exact ⟨rule, t, hnext.trans hgrows⟩

/-- A sequence is cut in its second part, after the firings of the first. -/
theorem CutsAt.after (h : CutsAt (f b) s₁ (c + k) i u s')
    (hx : x (s.under (some (c + (k + i))) c) =
      .ok b (s₁.under (some (c + (k + i))) (c + k)))
    (hfirings : Event.firings s₁.trace.toList = Event.firings s.trace.toList + k) :
    CutsAt (x >>= f) s c (k + i) u s' where
  stops := by
    rw [bind_of_ok f hx, ← Nat.add_assoc]
    exact h.stops
  firings := by rw [h.firings, hfirings, Nat.add_assoc]
  next := h.next

theorem foretells_pure (b : β) : Foretells (pure b) (pure b) := by
  intro l s c b' l' s' h
  cases h
  exact ⟨[], (List.append_nil l).symm, rfl, rfl, List.prefix_rfl, fun _ _ => rfl,
    fun i u hu => nomatch hu⟩

/-- A sequence is foretold if its parts are. -/
theorem Foretells.bind {w : Watched β} {v : β → Watched γ} (hw : Foretells w x)
    (hv : ∀ b, Foretells (v b) (f b)) : Foretells (w >>= v) (x >>= f) := by
  intro l s c b l' s' h
  obtain ⟨b₁, l₁, s₁, h₁, h₂⟩ := run_bind_eq_ok.1 h
  obtain ⟨us, rfl, tell⟩ := hw l s c b₁ l₁ s₁ h₁
  -- The second part begins with the count that the first leaves, and no limit.
  rw [← Run.under_of_budget tell.count] at h₂
  obtain ⟨vs, rfl, tell'⟩ := hv b₁ _ s₁ _ b l' s' h₂
  refine ⟨us ++ vs, List.append_assoc l us vs, ?_, ?_, tell.grows.trans tell'.grows, ?_, ?_⟩
  · rw [tell'.count, List.length_append, Nat.add_assoc]
  · rw [tell'.firings, tell.firings, List.length_append, Nat.add_assoc]
  · intro L hL
    rw [List.length_append, ← Nat.add_assoc] at hL ⊢
    rw [bind_of_ok f (tell.within L (by omega))]
    exact tell'.within L hL
  · -- The states noted in the first part are where it is cut, the others where the second is.
    intro i u hu
    rcases Nat.lt_or_ge i us.length with hi | hi
    · rw [List.getElem?_append_left hi] at hu
      exact (tell.cut i u hu).bind tell'.grows
    · obtain ⟨j, rfl⟩ := Nat.exists_eq_add_of_le hi
      rw [List.getElem?_append_right hi, Nat.add_sub_cancel_left] at hu
      exact (tell'.cut j u hu).after (tell.within _ (by omega)) tell.firings

/-- A commit is the same under every limit, and no firing. -/
theorem foretells_commit (o : Owner) (t : Term) :
    Foretells (liftM (commit o Term.script t)) (commit o Term.script t) := by
  intro l s c b l' s' h
  obtain ⟨g, budget, tr⟩ := s
  obtain ⟨hx, rfl⟩ := run_lift_eq_ok.1 h
  rw [Run.under, commit_events] at hx
  cases hx
  refine ⟨[], (List.append_nil _).symm, rfl, by simp, by simp, fun L _ => ?_,
    fun i u hu => nomatch hu⟩
  exact commit_events o t _ tr

/-- A rule begins to fire if the limit is not yet reached, and is cut before if it is. -/
theorem foretells_beginFiring (rule : Rule) (t : Term) :
    Foretells (beginFiring rule t) (pay >>= fun _ => record (.fired rule t)) := by
  intro l s c b l' s' h
  obtain ⟨g, budget, tr⟩ := s
  let start : Run String := ⟨g, .counted none c, tr⟩
  have hpay : pay start = .ok () ⟨g, .counted none (c + 1), tr⟩ :=
    pay_counted (Budget.hasRoom_none _) tr
  have hrun : (beginFiring rule t).run l start =
      .ok ((), l ++ [start]) ⟨g, .counted none (c + 1), tr.push (.fired rule t)⟩ := by
    have hnote : (beginFiring rule t).run l start =
        ((liftM (pay : Evaluation String Unit) : Watched Unit) >>= fun _ =>
          liftM (record (.fired rule t) : Evaluation String Unit)).run (l ++ [start]) start := rfl
    rw [hnote, run_bind_eq_ok]
    exact ⟨(), _, _, run_lift_eq_ok.2 ⟨hpay, rfl⟩, run_lift_eq_ok.2 ⟨record_apply _ _, rfl⟩⟩
  rw [Run.under, hrun] at h
  cases h
  refine ⟨[start], rfl, rfl, by simp, by simp, fun L hL => ?_, fun i u hu => ?_⟩
  · have hroom : Budget.HasRoom (some L) (c + 1) := fun l hl => Option.some.inj hl ▸ hL
    exact bind_of_ok _ (pay_counted hroom tr)
  · obtain ⟨rfl, rfl⟩ : i = 0 ∧ u = start := by
      cases i with
      | zero => exact ⟨rfl, (Option.some.inj hu).symm⟩
      | succ i => cases hu
    exact ⟨bind_of_error _ (pay_exceeds g c tr), rfl, rule, t, by simp [start]⟩

/-- A plan is foretold if its calls are. -/
theorem foretells_run {normalize : Term → Watched Term}
    {normalize' : Term → Evaluation String Term}
    (hcall : ∀ t, Foretells (normalize t) (normalize' t)) (t : Term) (p : Plan β) :
    Foretells (p.run normalize (liftM (commit o Term.script t)))
      (p.run normalize' (commit o Term.script t)) := by
  induction p with
  | done b => exact foretells_pure b
  | call u next ih => exact (hcall u).bind ih
  | commit next ih => exact (foretells_commit o t).bind ih

/-- **A watched normalization says what all limits do.** -/
theorem foretells_watch (n : Nat) (t : Term) :
    Foretells (watch o n t) (normalizeBy o Term.script n t) := by
  induction n generalizing t with
  | zero =>
      intro l s c b l' s' h
      cases h
  | succ n ih =>
      cases hred : t.redex? with
      | none =>
          rw [normalizeBy_of_none n hred, watch, hred]
          exact foretells_pure t
      | some found =>
          obtain ⟨rule, args⟩ := found
          rw [normalizeBy_of_some n hred, watch, hred, fire, ← bind_assoc]
          exact (foretells_beginFiring rule t).bind fun _ => foretells_run ih t _

end

/-! ## Normalization with a limit -/

/-- A normalization that stops at a limit, or returns within it, does so with every
nesting beyond the limit. -/
theorem normalize_of_limited {L n m : Nat} {g : Guard String}
    {result : EStateM.Result Stop (Run String) Term}
    (h : normalizeBy o Term.script n t ⟨g, .counted (some L) 0, #[]⟩ = result)
    (hdeep : ¬ IsTooDeep result) (hm : L < m) :
    normalize o m t ⟨g, .counted (some L) 0, #[]⟩ = result := by
  subst h
  rw [normalize_eq]
  exact normalizeBy_congr_nesting hdeep (endsBy_normalizeBy o t g hm).not_isTooDeep

/-- **A limit cuts a run and does nothing else.**  Let normalization without a limit return,
after as many firings as there are states `us` in which it fires.  With a new budget it
returns the same, and leaves the same guard and trace, if the limit has room for these
firings; and if it has not, normalization stops at the first firing that is too many, in
the state that the run without a limit has there.  If normalization without a limit does
not halt, every limit is exceeded. -/
theorem limit_only_cuts (o : Owner) (t : Term) (g : Guard String) :
    (∀ n r s, normalize o n t ⟨g, .unbounded, #[]⟩ = .ok r s →
      ∃ us : List (Run String), (watch o n t).run [] ⟨g, .unbounded, #[]⟩ = .ok (r, us) s ∧
        firings s.trace.toList = us.length ∧
        ∀ L m : Nat, L < m → ∃ b, Budget.ofLimit (some (.integer L)) = .ok b ∧
          (us.length ≤ L → normalize o m t ⟨g, b, #[]⟩ =
            .ok r ⟨s.guard, .counted (some L) us.length, s.trace⟩) ∧
          ∀ hL : L < us.length,
            normalize o m t ⟨g, b, #[]⟩ =
              .error (.exceeds L) ⟨us[L].guard, .counted (some L) (L + 1), us[L].trace⟩ ∧
            firings us[L].trace.toList = L ∧
            ∃ rule u, us[L].trace.toList ++ [fired rule u] <+: s.trace.toList) ∧
    (¬ Halts o t g → ∀ L m : Nat, L < m → ∃ b, Budget.ofLimit (some (.integer L)) = .ok b ∧
      ∃ s, normalize o m t ⟨g, b, #[]⟩ = .error (.exceeds L) s) := by
  constructor
  · intro n r s h
    rw [normalize_eq] at h
    obtain ⟨us, hwatch⟩ := exists_watch_of_normalizeBy h
    obtain ⟨_, rfl, tell⟩ := foretells_watch n t [] ⟨g, .unbounded, #[]⟩ 0 r us s hwatch
    refine ⟨us, hwatch, tell.firings.trans (Nat.zero_add _), fun L m hm =>
      ⟨_, Budget.ofLimit_natCast L, fun hroom => ?_, fun hL => ?_⟩⟩
    · have hwithin := tell.within L (by omega)
      rw [Nat.zero_add] at hwithin
      exact normalize_of_limited hwithin (fun hdeep => nomatch hdeep) hm
    · have hcut := tell.cut L us[L] (List.getElem?_eq_getElem hL)
      have hstops := hcut.stops
      rw [Nat.zero_add] at hstops
      exact ⟨normalize_of_limited hstops (fun hdeep => nomatch hdeep) hm,
        hcut.firings.trans (Nat.zero_add L), hcut.next⟩
  · intro hhalts L m hm
    refine ⟨_, Budget.ofLimit_natCast L, ?_⟩
    rw [normalize_eq]
    have hend := endsBy_normalizeBy o t g hm
    generalize hrun : normalizeBy o Term.script m t ⟨g, .counted (some L) 0, #[]⟩ = result at hend
    cases hend with
    | ok r =>
        obtain ⟨es, he⟩ := evaluates_of_normalizeBy hrun
        exact absurd (halts_iff_evaluates.2 ⟨es, r, _, he⟩) hhalts
    | exceeds => exact ⟨_, rfl⟩

/-- Limits 2 and 1 for a redex that fires twice, where the second firing comes after the
commit of the first; and every limit for a redex that comes back to itself. -/
theorem limit_only_cuts_of_identityApplied :
    let main : Owner := .thread .main
    let t := app (app I (app I K)) S
    let g := (Guard.empty.commit main t.script).2
    let spun := Guard.ofTerms main Spin.committed
    normalize main 3 t ⟨.empty, .counted (some 2) 0, #[]⟩ =
        .ok (app K S) ⟨g, .counted (some 2) 2,
          #[fired .identityApplied t, fired .identity (app I K)]⟩ ∧
      normalize main 3 t ⟨.empty, .counted (some 1) 0, #[]⟩ =
        .error (.exceeds 1) ⟨g, .counted (some 1) 2, #[fired .identityApplied t]⟩ ∧
      ∀ L, ∃ s, normalize main (L + 1) Spin.spin ⟨spun, .counted (some L) 0, #[]⟩ =
        .error (.exceeds L) s := by
  intro main t g spun
  let trace := #[fired .identityApplied t, fired .identity (app I K)]
  have hrun : normalize main 3 t ⟨.empty, .unbounded, #[]⟩ =
      .ok (app K S) ⟨g, .counted none 2, trace⟩ := rfl
  have hwatch : (watch main 3 t).run [] ⟨.empty, .unbounded, #[]⟩ =
      .ok (app K S, [⟨.empty, .unbounded, #[]⟩,
        ⟨g, .counted none 1, #[fired .identityApplied t]⟩]) ⟨g, .counted none 2, trace⟩ := rfl
  obtain ⟨returns, -⟩ := limit_only_cuts main t .empty
  obtain ⟨us, hus, -, cuts⟩ := returns 3 _ _ hrun
  obtain ⟨⟨⟩⟩ := hwatch.symm.trans hus
  obtain ⟨_, hb, within, -⟩ := cuts 2 3 (by decide)
  cases hb
  obtain ⟨_, hb, -, cut⟩ := cuts 1 3 (by decide)
  cases hb
  refine ⟨within (by decide), (cut (by decide)).1, fun L => ?_⟩
  have hspin : ¬ Halts main Spin.spin spun :=
    not_halts_of_reenters (Spin.reenters_spin (Spin.script_mem_entries main))
  obtain ⟨_, hb, hstop⟩ := (limit_only_cuts main Spin.spin spun).2 hspin L (L + 1) (by omega)
  rw [Budget.ofLimit_natCast] at hb
  cases hb
  exact hstop

end Evaluation

end Combinatory
