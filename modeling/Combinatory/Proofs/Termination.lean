import Combinatory.Proofs.CallGraph
import Combinatory.Proofs.Soundness
import Mathlib.Order.WellFounded

/-!
# Termination

Normalization halts for every term that has no infinite reduction, whatever the guard
holds.  No size gets smaller on the way, since `S` copies and results are put together
again; but each call goes down from its caller, to a reduct or to a part, any number of
times.  The one call that does not go down is the last of a longer spine that was normal
already: it is for the very term that is being normalized, which has just been committed
and had not been before (`Calls.descends`).  So a term is called again once at most before
the calls go down.

## Main definitions

* `Term.Terminates`: a term has no infinite reduction.
* `Term.Descends`: the way to a reduct or to a part.
* `Plan.Demands`: what the calls of a plan satisfy.

## Main results

* `Terminates.acc_descends`: from a term that terminates there is no infinite way down.
* `Rule.plan_demands_descent`: the calls of each rule go down.
* `halts_of_terminates`: normalization halts for terms that terminate.
-/

namespace Combinatory

open Relation Term

namespace Term

variable {l r t u v : Term}

/-- A term terminates when no infinite sequence of steps begins with it. -/
def Terminates (t : Term) : Prop :=
  ¬ ∃ f : Nat → Term, f 0 = t ∧ ∀ n, Step (f n) (f (n + 1))

/-- A term terminates when it is accessible by steps. -/
theorem terminates_iff_acc : t.Terminates ↔ Acc (flip Step) t := by
  rw [acc_iff_isEmpty_descending_chain, Terminates, ← not_nonempty_iff, nonempty_subtype]
  rfl

/-! ## Terms without `S` -/

@[simp] theorem subterm_prim_iff {p : Primitive} : Subterm u (prim p) ↔ u = prim p := by
  constructor
  · intro h
    cases h
    rfl
  · rintro rfl
    exact .refl _

@[simp] theorem subterm_var_iff {x : VarName} : Subterm u (var x) ↔ u = var x := by
  constructor
  · intro h
    cases h
    rfl
  · rintro rfl
    exact .refl _

@[simp] theorem subterm_app_iff :
    Subterm u (app l r) ↔ u = app l r ∨ Subterm u l ∨ Subterm u r := by
  constructor
  · intro h
    cases h with
    | refl => exact .inl rfl
    | left _ h => exact .inr (.inl h)
    | right _ h => exact .inr (.inr h)
  · rintro (rfl | h | h)
    · exact .refl _
    · exact .left r h
    · exact .right l h

/-- A redex without `S` contracts to something smaller without `S`. -/
theorem Contracts.size_lt (h : Contracts t u) (hS : ¬ Subterm S t) :
    u.size < t.size ∧ ¬ Subterm S u := by
  cases h with
  | identity a =>
      simp_all only [size, subterm_app_iff, not_or, not_false_eq_true, and_true]
      omega
  | constant a b =>
      simp_all only [size, subterm_app_iff, not_or, not_false_eq_true, and_true]
      omega
  | substitution a b c => exact absurd (.left _ (.left _ (.left _ (.refl S)))) hS

/-- A step of a term without `S` leads to something smaller without `S`. -/
theorem Step.size_lt (h : Step t u) (hS : ¬ Subterm S t) : u.size < t.size ∧ ¬ Subterm S u := by
  induction h with
  | root h => exact h.size_lt hS
  | left r _ ih =>
      obtain ⟨hlt, hl⟩ := ih fun h => hS (.left r h)
      refine ⟨by simpa [size] using hlt, ?_⟩
      simp_all
  | right l _ ih =>
      obtain ⟨hlt, hr⟩ := ih fun h => hS (.right l h)
      refine ⟨by simpa [size] using hlt, ?_⟩
      simp_all

/-- Terms without `S` terminate: they get smaller with every step. -/
theorem terminates_of_not_subterm_S (hS : ¬ Subterm S t) : t.Terminates := by
  rw [terminates_iff_acc]
  induction hn : t.size using Nat.strong_induction_on generalizing t with
  | h n ih =>
      subst hn
      refine .intro t fun u hu => ?_
      obtain ⟨hlt, hSu⟩ := Step.size_lt hu hS
      exact ih u.size hlt hSu rfl

/-! ## Reducts and parts -/

/-- The way from a term to what it comes to in one step, or to one of its parts. -/
inductive Descends : Term → Term → Prop
  | step {t u : Term} : Step t u → Descends t u
  | left (l r : Term) : Descends (app l r) l
  | right (l r : Term) : Descends (app l r) r

/-- From a term there is no infinite way down if there is none from its reducts: a part of
a reduct is a part of the term, or a reduct of one. -/
theorem acc_descends_of_reducts (h : ∀ u, Step t u → Acc (flip Descends) u) :
    Acc (flip Descends) t := by
  induction t with
  | app l r ihl ihr =>
      refine .intro _ fun u hu => ?_
      cases hu with
      | step hs => exact h u hs
      | left => exact ihl fun l' hl => (h _ (.left r hl)).inv (.left l' r)
      | right => exact ihr fun r' hr => (h _ (.right l hr)).inv (.right l r')
  | _ =>
      refine .intro _ fun u hu => ?_
      cases hu with
      | step hs => exact h u hs

/-- **From a term that terminates there is no infinite way down**, through reducts and
parts in any order. -/
theorem Terminates.acc_descends (h : t.Terminates) : Acc (flip Descends) t := by
  rw [terminates_iff_acc] at h
  induction h with
  | intro t _ ih => exact acc_descends_of_reducts ih

/-- What holds of all parts and contractions of the terms it holds of, holds of what any way
down leads to. -/
theorem of_descends {P : Term → Prop} (down : ∀ t u, P t → Descends t u → P u) (ht : P t)
    (hu : TransGen Descends t u) : P u := by
  induction hu with
  | single hu => exact down _ _ ht hu
  | tail _ hu ih => exact down _ _ ih hu

/-- A way down goes on with any number of steps. -/
theorem descends_trans_steps (h : TransGen Descends t u) (hs : Steps u v) :
    TransGen Descends t v :=
  h.trans_left (hs.lift id fun _ _ => .step)

/-- What a term reduces to is the term itself, or below it. -/
theorem Steps.eq_or_descends (h : Steps t u) : u = t ∨ TransGen Descends t u := by
  rcases reflTransGen_iff_eq_or_transGen.1 h with heq | hs
  · exact .inl heq
  · exact .inr (hs.lift id fun _ _ => .step)

end Term

/-! ## The calls of plans -/

/-- What holds of each call of a plan and of the answer to the last commit before it,
whenever calls are answered by terms that they may return, and however the commits are
answered. -/
def Plan.Demands {β : Type} (returns : Term → Term → Prop)
    (demand : Option Bool → Term → Prop) : Option Bool → Plan β → Prop
  | _, done _ => True
  | fresh, call t next =>
      demand fresh t ∧ ∀ r, returns t r → (next r).Demands returns demand fresh
  | _, commit next => ∀ fresh, (next fresh).Demands returns demand (some fresh)

/-- A call goes down from a term, or is for that term, after a commit that was new. -/
def DescendsOrRepeats (t : Term) (fresh : Option Bool) (u : Term) : Prop :=
  TransGen Descends t u ∨ fresh = some true ∧ u = t

/-- What holds of all that is below a term, and of the term, holds of such calls. -/
theorem DescendsOrRepeats.of_closed {t u : Term} {fresh : Option Bool} {P : Term → Prop}
    (h : DescendsOrRepeats t fresh u) (down : ∀ t u, P t → Descends t u → P u) (ht : P t) :
    P u := by
  rcases h with hu | ⟨-, rfl⟩
  · exact of_descends down ht hu
  · exact ht

namespace Rule

variable (arg : Nat → Term)

/-- **The calls of each rule go down from what its template stands for**, or repeat it
after a new commit; only the rule for two applications would repeat it without one. -/
theorem plan_demands_descent (rule : Rule) (hrule : rule ≠ .pair) :
    (rule.plan arg).Demands Steps (DescendsOrRepeats (rule.pattern.fill arg)) none := by
  cases rule with
  | identity => trivial
  | identityApplied =>
      have first : TransGen Descends (identityApplied.pattern.fill arg) (arg 1) :=
        .tail (.single (.left _ _)) (.right _ _)
      intro fresh
      refine ⟨.inl first, fun a ha => ⟨.inl (.single (.right _ _)), fun b hb => ?_⟩⟩
      have applied : TransGen Descends (identityApplied.pattern.fill arg) (app a b) :=
        descends_trans_steps (.single (.step (.left _ (.root (.identity _)))))
          (ha.congr_app hb)
      cases fresh with
      | false => trivial
      | true => exact ⟨.inl applied, fun _ _ => trivial⟩
  | constant => trivial
  | identityAppliedTwice =>
      have spine : TransGen Descends (identityAppliedTwice.pattern.fill arg)
          (app (app I (arg 1)) (arg 2)) := .single (.left _ _)
      intro fresh
      refine ⟨.inl ((spine.tail (.left _ _)).tail (.right _ _)), fun a ha => ?_⟩
      cases fresh with
      | false => trivial
      | true =>
          refine ⟨.inl (spine.tail (.right _ _)), fun b hb => ?_⟩
          have inner : TransGen Descends (identityAppliedTwice.pattern.fill arg) (app a b) :=
            descends_trans_steps (spine.tail (.step (.left _ (.root (.identity _)))))
              (ha.congr_app hb)
          refine ⟨.inl inner, fun head hhead => ⟨.inl (.single (.right _ _)), fun c hc => ?_⟩⟩
          have whole : TransGen Descends (identityAppliedTwice.pattern.fill arg) (app head c) :=
            descends_trans_steps (.single (.step (.left _ (.left _ (.root (.identity _))))))
              (Steps.congr_app ((ha.congr_app hb).trans hhead) hc)
          exact ⟨.inl whole, fun _ _ => trivial⟩
  | constantApplied =>
      exact ⟨.inl (.single (.step (.left _ (.root (.constant _ _))))), fun _ _ => trivial⟩
  | substitution =>
      have spread : TransGen Descends (substitution.pattern.fill arg)
          (app (app (arg 1) (arg 3)) (app (arg 2) (arg 3))) :=
        .single (.step (.root (.substitution _ _ _)))
      intro fresh
      cases fresh with
      | false => exact ⟨.inl spread, fun _ _ => trivial⟩
      | true =>
          refine ⟨.inl (spread.tail (.left _ _)), fun left hleft => ?_⟩
          refine ⟨.inl (spread.tail (.right _ _)), fun right hright => ?_⟩
          exact ⟨.inl (descends_trans_steps spread (hleft.congr_app hright)),
            fun _ _ => trivial⟩
  | pair => exact absurd rfl hrule
  | nestedHead =>
      have spine : TransGen Descends (nestedHead.pattern.fill arg)
          (app (app (arg 1) (arg 2)) (arg 3)) := .single (.left _ _)
      refine ⟨.inl ((spine.tail (.left _ _)).tail (.left _ _)), fun a ha fresh => ?_⟩
      have hspine : Steps (app (app (arg 1) (arg 2)) (arg 3)) (app (app a (arg 2)) (arg 3)) :=
        (ha.left _).left _
      refine ⟨.inl (descends_trans_steps spine hspine), fun inner hinner => ?_⟩
      cases fresh with
      | false => exact ⟨.inl (.single (.right _ _)), fun _ _ => trivial⟩
      | true =>
          -- The head and the rest of the spine may be normal, and then this is the redex.
          have hwhole : Steps (nestedHead.pattern.fill arg) (app inner (arg 4)) :=
            Steps.left _ (hspine.trans hinner)
          refine ⟨?_, fun _ _ => trivial⟩
          rcases hwhole.eq_or_descends with heq | hdown
          · exact .inr ⟨rfl, heq⟩
          · exact .inl hdown

end Rule

/-- The calls for a redex go down from it, or repeat it after a new commit. -/
theorem Term.demands_of_redex? {t : Term} {rule : Rule} {args : List Term}
    (hred : t.redex? = some (rule, args)) :
    (rule.plan (argument args)).Demands Steps (DescendsOrRepeats t) none := by
  have hrule : rule ≠ .pair := fun heq => redex?_ne_pair (heq ▸ hred)
  have hp := rule.plan_demands_descent (argument args) hrule
  rwa [fill_of_redex? hred] at hp

section

variable {o : Owner} {redex t u r : Term} {p : Plan Term} {g h k : Guard String}
  {es : List Event}

/-- What a plan comes to leaves everything in the guard. -/
theorem Plan.Yields.entries_subset (hy : p.Yields o redex g es r h) :
    g.entries o ⊆ h.entries o := by
  induction hy with
  | done redex r g => exact List.Subset.refl _
  | commit rest ih => exact fun _ hb => ih ((Guard.mem_entries_commit _ _ _ _).2 (.inr hb))
  | normal hred rest ih => exact ih
  | fire hred body rest ihbody ihrest => exact List.Subset.trans ihbody ihrest

/-- What a term comes to leaves everything in the guard. -/
theorem Evaluates.entries_subset (he : Evaluates o t g es r h) :
    g.entries o ⊆ h.entries o := by
  cases he with
  | normal hred => exact List.Subset.refl _
  | fire hred body => exact body.entries_subset

/-- What a term comes to is a reduct of it. -/
theorem Evaluates.steps (he : Evaluates o t g es r h) : Steps t r :=
  Evaluation.steps_of_normalizeBy
    (he.run (c := 0) (Nat.lt_succ_self _) (Budget.hasRoom_none _) #[])

/-- The redex of a plan was not in the guard `k` at the start, and is in the guard now, if
the last commit was new. -/
def Plan.Recorded (o : Owner) (redex : Term) (k g : Guard String) (fresh : Option Bool) :
    Prop :=
  fresh = some true → redex.script ∉ k.entries o ∧ redex.script ∈ g.entries o

/-- The calls that a plan makes are as demanded, and what the last commit before a call
answered shows in the guard that it is made with. -/
theorem Plan.Asks.exists_demand {demand : Option Bool → Term → Prop} {fresh : Option Bool}
    (ha : p.Asks o redex g es u h) (hp : p.Demands Steps demand fresh)
    (hstart : k.entries o ⊆ g.entries o) (hfresh : Recorded o redex k g fresh) :
    ∃ fresh', demand fresh' u ∧ Recorded o redex k h fresh' := by
  induction ha generalizing fresh with
  | here t next g => exact ⟨fresh, hp.1, hfresh⟩
  | call first rest ih =>
      have hsub := first.entries_subset
      refine ih (hp.2 _ first.steps) (List.Subset.trans hstart hsub) fun hf => ?_
      exact ⟨(hfresh hf).1, hsub (hfresh hf).2⟩
  | @commit next g es u h rest ih =>
      have hentry (a : String) := Guard.mem_entries_commit g o redex.script a
      refine ih (hp _) (fun a ha => (hentry a).2 (.inr (hstart ha))) fun hf => ?_
      have hnew : redex.script ∉ g.entries o := by simpa using hf
      exact ⟨fun hmem => hnew (hstart hmem), (hentry _).2 (.inl rfl)⟩

/-- **A call goes down, or is for the same term, which is in the guard now and was not in it
before.** -/
theorem Calls.descends (hc : Calls o (t, g) (u, h)) :
    TransGen Descends t u ∨
      u = t ∧ t.script ∉ g.entries o ∧ t.script ∈ h.entries o := by
  obtain ⟨rule, args, es, hred, ha⟩ := hc
  obtain ⟨fresh, hdown | ⟨hnew, heq⟩, hrecorded⟩ := ha.exists_demand (k := g)
    (demands_of_redex? hred) (List.Subset.refl _) fun hf => nomatch hf
  · exact .inl hdown
  · exact .inr ⟨heq, hrecorded hnew⟩

/-! ## Halting -/

/-- Where there is no infinite way down, there is no infinite path of calls. -/
theorem acc_calls_of_acc_descends (hacc : Acc (flip Descends) t) (g : Guard String) :
    Acc (flip (Calls o)) (t, g) := by
  replace hacc : Acc (TransGen (flip Descends)) t := acc_transGen_iff.2 hacc
  induction hacc generalizing g with
  | intro t _ ih =>
      have down : ∀ u h, TransGen Descends t u → Acc (flip (Calls o)) (u, h) :=
        fun u h hu => ih u (transGen_swap.2 hu) h
      -- With the term in the guard, all calls go down.
      have committed : ∀ h : Guard String, t.script ∈ h.entries o →
          Acc (flip (Calls o)) (t, h) := by
        refine fun h hmem => .intro _ fun ⟨u, k⟩ hc => ?_
        rcases Calls.descends hc with hu | ⟨-, hnew, -⟩
        · exact down u k hu
        · exact absurd hmem hnew
      refine .intro _ fun ⟨u, k⟩ hc => ?_
      rcases Calls.descends hc with hu | ⟨heq, -, hmem⟩
      · exact down u k hu
      · exact heq ▸ committed k hmem

end

/-- **Normalization halts for every term that terminates**, with every guard; all terms
without `S` terminate. -/
theorem halts_of_terminates (o : Owner) (t : Term) (g : Guard String) :
    (t.Terminates → Halts o t g) ∧ (¬ Subterm S t → t.Terminates) :=
  ⟨fun h => halts_iff_acc.2 (acc_calls_of_acc_descends h.acc_descends g),
    terminates_of_not_subterm_S⟩

/-- Normalization halts for `S K K I`, which reduces to `K I (K I)` and then to `I`, and for
a longer spine without `S` that has been committed before. -/
theorem halts_of_terminates_of_committed :
    let t := app (app (app S K) K) I
    let u := app (app (app (app K I) K) I) K
    t.Terminates ∧ Halts (.thread .main) t .empty ∧
      ¬ Subterm S u ∧ u.Terminates ∧
        Halts (.thread .main) u (Guard.empty.commit (.thread .main) u.script).2 := by
  intro t u
  have hprim : ∀ p v, ¬ Step (prim p) v := by
    rintro p v (⟨⟨⟩⟩ | _ | _)
  have hpart : ∀ p q v, p ≠ .I → ¬ Step (app (prim p) (prim q)) v := by
    rintro p q v hp (⟨⟨⟩⟩ | ⟨-, h⟩ | ⟨-, h⟩)
    · exact hp rfl
    · exact hprim _ _ h
    · exact hprim _ _ h
  have hsecond : ∀ v, Step (app (app K I) (app K I)) v → v = I := by
    rintro v (⟨⟨⟩⟩ | ⟨-, h⟩ | ⟨-, h⟩)
    · rfl
    · exact absurd h (hpart _ _ _ (by decide))
    · exact absurd h (hpart _ _ _ (by decide))
  have hfirst : ∀ v, Step (app (app (app S K) K) I) v → v = app (app K I) (app K I) := by
    rintro v (⟨⟨⟩⟩ | ⟨-, ⟨⟨⟩⟩ | ⟨-, h⟩ | ⟨-, h⟩⟩ | ⟨-, h⟩)
    · rfl
    · exact absurd h (hpart _ _ _ (by decide))
    · exact absurd h (hprim _ _)
    · exact absurd h (hprim _ _)
  have ht : t.Terminates := by
    refine terminates_iff_acc.2 (.intro t fun v hv => ?_)
    obtain rfl := hfirst v hv
    refine .intro _ fun w hw => ?_
    obtain rfl := hsecond w hw
    exact .intro _ fun _ h => absurd h (hprim _ _)
  have hu : ¬ Subterm S u := by simp [u]
  obtain ⟨halts, -⟩ := halts_of_terminates (.thread .main) t .empty
  obtain ⟨halts', terminates⟩ := halts_of_terminates (.thread .main) u _
  exact ⟨ht, halts ht, hu, terminates hu, halts' (terminates hu)⟩

end Combinatory
