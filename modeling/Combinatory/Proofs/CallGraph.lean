import Combinatory.Proofs.BigStep
import Mathlib.Logic.Relation

/-!
# The graph of calls

To normalize a term may take normalizing others, each with the guard as it is at that
moment.  A call has these for its successors.  Normalization halts exactly where the
graph has no infinite path (`halts_iff_acc`), since a plan makes a few calls only; so a
call that leads back to itself never returns (`not_halts_of_reenters`).

## Main definitions

* `Plan.Asks`: the calls that the plan of a redex makes, and what happens before.
* `Calls`: what a normalization calls.
* `Halts`: normalization without a limit has a result.
* `Reenters`: some call below a normalization leads back to itself.

## Main results

* `halts_iff_acc`: normalization halts when there is no infinite path of calls.
* `Plan.exists_yields_iff`: what a rule does by itself comes to an end when its calls do.
* `not_halts_of_reenters`: a repetition among the calls is a loop.
* `not_halts_of_progress`: so are calls that never come to an end.
-/

namespace Combinatory

open Relation Term Event

/-- `Asks o redex p g es u h` says that the plan `p` for a redex, carried out from the
guard `g`, calls for `u` with the guard `h`, after the events `es`. -/
inductive Plan.Asks (o : Owner) (redex : Term) :
    Plan Term → Guard String → List Event → Term → Guard String → Prop
  /-- The call with which a plan begins. -/
  | here (t : Term) (next : Term → Plan Term) (g : Guard String) :
      Asks o redex (.call t next) g [] t g
  /-- A call after the first one has returned. -/
  | call {t : Term} {next : Term → Plan Term} {g : Guard String} {es : List Event} {r : Term}
      {g' : Guard String} {es' : List Event} {u : Term} {h : Guard String}
      (first : Evaluates o t g es r g') (rest : Asks o redex (next r) g' es' u h) :
      Asks o redex (.call t next) g (es ++ es') u h
  /-- A call after a commit. -/
  | commit {next : Bool → Plan Term} {g : Guard String} {es : List Event} {u : Term}
      {h : Guard String}
      (rest : Asks o redex (next (g.commit o redex.script).1) (g.commit o redex.script).2
        es u h) :
      Asks o redex (.commit next) g (ofCommit redex (g.commit o redex.script).1 ++ es) u h

/-- The normalization of a term with a guard calls that of another with a guard. -/
def Calls (o : Owner) (x y : Term × Guard String) : Prop :=
  ∃ rule args es, x.1.redex? = some (rule, args) ∧
    (rule.plan (argument args)).Asks o x.1 x.2 es y.1 y.2

/-- Normalization for an owner, with a guard and without a limit, has a result. -/
def Halts (o : Owner) (t : Term) (g : Guard String) : Prop :=
  ∃ nesting r s, Evaluation.normalize o nesting t ⟨g, .unbounded, #[]⟩ = .ok r s

/-- Below the normalization of a term with a guard, some call leads back to itself: the
same term, with the same guard. -/
def Reenters (o : Owner) (t : Term) (g : Guard String) : Prop :=
  ∃ x, ReflTransGen (Calls o) (t, g) x ∧ TransGen (Calls o) x x

section

variable {o : Owner} {redex t u r : Term} {p : Plan Term} {g h : Guard String}
  {es : List Event} {x y : Term × Guard String}

/-- A term that no rule applies to calls nothing. -/
theorem not_calls_of_redex?_eq_none (hred : x.1.redex? = none) : ¬ Calls o x y := by
  rintro ⟨rule, args, es, hred', -⟩
  rw [hred] at hred'
  cases hred'

/-- Normalization halts when there are events by which the term comes to something. -/
theorem halts_iff_evaluates : Halts o t g ↔ ∃ es r h, Evaluates o t g es r h := by
  constructor
  · rintro ⟨n, r, s, hrun⟩
    rw [Evaluation.normalize_eq] at hrun
    obtain ⟨es, he⟩ := Evaluation.evaluates_of_normalizeBy hrun
    exact ⟨es, r, _, he⟩
  · rintro ⟨es, r, h, he⟩
    exact ⟨_, r, _, he.normalize⟩

/-- Normalization halts when it comes to something. -/
theorem halts_iff_comes : Halts o t g ↔ ∃ r h, Comes o t g r h := by
  rw [halts_iff_evaluates]
  constructor
  · rintro ⟨es, r, h, he⟩
    exact ⟨r, h, es, he⟩
  · rintro ⟨r, h, es, he⟩
    exact ⟨es, r, h, he⟩

/-- Normalization halts when it returns with some nesting. -/
theorem halts_iff_outcome : Halts o t g ↔
    ∃ n r, Evaluation.outcome (Evaluation.normalize o n t ⟨g, .unbounded, #[]⟩) = .ok r := by
  simp only [Halts, Evaluation.outcome_eq_ok]

/-! ## Halting -/

/-- A plan comes to something if all its calls do: it makes one call after another, and
each answer leaves less of it. -/
theorem Plan.exists_yields (hcalls : ∀ es u h, p.Asks o redex g es u h → Halts o u h) :
    ∃ es r h, p.Yields o redex g es r h := by
  induction p generalizing g with
  | done b => exact ⟨[], b, g, .done redex b g⟩
  | call t next ih =>
      obtain ⟨es₁, u, g', hfirst⟩ := halts_iff_evaluates.1 (hcalls [] t g (.here t next g))
      obtain ⟨es₂, r, h, hrest⟩ := ih u fun es v h' ha => hcalls _ v h' (.call hfirst ha)
      exact ⟨_, r, h, Plan.yields_call.2 ⟨es₁, u, g', es₂, hfirst, hrest, rfl⟩⟩
  | commit next ih =>
      obtain ⟨es, r, h, hrest⟩ := ih _ fun es v h' ha => hcalls _ v h' (.commit ha)
      exact ⟨_, r, h, .commit hrest⟩

/-- The calls of a plan that comes to something have no infinite path below them. -/
theorem Plan.Yields.acc_of_asks (hy : p.Yields o redex g es r h) {es' : List Event}
    {h' : Guard String} (ha : p.Asks o redex g es' u h') : Acc (flip (Calls o)) (u, h') := by
  -- The calls of what is called first are those of the body; those made after it are the
  -- calls of the rest, because the first call has one outcome only.
  induction hy generalizing es' u h' with
  | done redex r g => cases ha
  | commit rest ih =>
      cases ha with
      | commit ha => exact ih ha
  | normal hred rest ih =>
      cases ha with
      | here => exact .intro _ fun y hy => absurd hy (not_calls_of_redex?_eq_none hred)
      | call first ha =>
          obtain ⟨-, rfl, rfl⟩ := first.unique (.normal _ hred)
          exact ih ha
  | fire hred body rest ihbody ihrest =>
      cases ha with
      | here =>
          refine .intro _ fun y ⟨rule', args', es₁, hred', ha⟩ => ?_
          rw [hred] at hred'
          cases hred'
          exact ihbody ha
      | call first ha =>
          obtain ⟨-, rfl, rfl⟩ := first.unique (.fire hred body)
          exact ihrest ha

/-- **Normalization halts exactly when there is no infinite path of calls.** -/
theorem halts_iff_acc : Halts o t g ↔ Acc (flip (Calls o)) (t, g) := by
  constructor
  · intro hh
    obtain ⟨es, r, h, he⟩ := halts_iff_evaluates.1 hh
    have hy : Plan.Yields o t (.call t .done) g _ r h :=
      Plan.yields_call.2 ⟨es, r, h, [], he, .done t r h, rfl⟩
    exact hy.acc_of_asks (.here t .done g)
  · intro hacc
    generalize hx : (t, g) = x at hacc
    induction hacc generalizing t g with
    | intro x _ ih =>
        subst hx
        rw [halts_iff_evaluates]
        cases hred : t.redex? with
        | none => exact ⟨[], t, g, .normal g hred⟩
        | some found =>
            obtain ⟨rule, args⟩ := found
            have hcalls : ∀ es u h, (rule.plan (argument args)).Asks o t g es u h →
                Halts o u h :=
              fun es u h ha => ih (u, h) ⟨rule, args, es, hred, ha⟩ rfl
            obtain ⟨es, r, h, hy⟩ := Plan.exists_yields hcalls
            exact ⟨_, r, h, .fire hred hy⟩

/-- **A plan comes to something exactly if all its calls halt.** -/
theorem Plan.exists_yields_iff : (∃ es r h, p.Yields o redex g es r h) ↔
    ∀ es u h, p.Asks o redex g es u h → Halts o u h := by
  constructor
  · rintro ⟨es, r, h, hy⟩ es' u h' ha
    exact halts_iff_acc.2 (hy.acc_of_asks ha)
  · exact Plan.exists_yields

end

/-! ## Loops -/

/-- **A normalization does not halt if an invariant leads on for ever**: where it holds, one
call or more lead to where it holds again. -/
theorem not_halts_of_progress {o : Owner} {P : Term × Guard String → Prop}
    (progress : ∀ x, P x → ∃ y, TransGen (Calls o) x y ∧ P y) {t : Term} {g : Guard String}
    (hstart : P (t, g)) : ¬ Halts o t g := by
  intro hh
  have hacc : Acc (TransGen (flip (Calls o))) (t, g) :=
    acc_transGen_iff.2 (halts_iff_acc.1 hh)
  generalize (t, g) = x at hstart hacc
  induction hacc with
  | intro x _ ih =>
      obtain ⟨y, hxy, hy⟩ := progress x hstart
      exact ih y (transGen_swap.2 hxy) hy

/-- **A normalization below which a call leads back to itself does not halt.** -/
theorem not_halts_of_reenters {o : Owner} {t : Term} {g : Guard String}
    (hre : Reenters o t g) : ¬ Halts o t g := by
  obtain ⟨x, hreach, hcycle⟩ := hre
  exact not_halts_of_progress (P := fun y => ReflTransGen (Calls o) y x)
    (fun _ hy => ⟨x, .trans_right hy hcycle, .refl⟩) hreach

end Combinatory
