import Combinatory.Proofs.Lockstep
import Mathlib.Data.List.Basic
import Mathlib.Logic.Equiv.Basic

/-!
# Renaming variables

To an evaluation one variable is like another.  Rules look at primitives and at the shape of
the left spine, so the engine takes a renamed term through the renamed run, if it enters a
redex into the guard where the other enters the renamed one (`Evaluation.renames_normalizeBy`).
That the entries are texts makes a difference only where two redexes get the same text, and
an injective renaming brings this about as little as it was there before; so engines with the
entries of renamed redexes and with those of the redexes themselves run in step.

## Main definitions

* `Term.rename`, `Event.rename`, `Run.rename`: terms, events and states with other names.
* `Plan.Renamed`: the plan for a renamed redex.
* `Evaluation.Renames`: computations of which one does what the other does, renamed.

## Main results

* `Evaluation.renames_normalizeBy`: normalization of a renamed term.
* `renaming_commutes`: normalization commutes with injective renaming.
-/

namespace Combinatory

namespace Term

/-- A term with other names for its variables. -/
def rename (f : VarName → VarName) : Term → Term
  | prim p => prim p
  | var x => var (f x)
  | app l r => app (l.rename f) (r.rename f)

/-- Different terms stay different if different names do. -/
theorem rename_injective {f : VarName → VarName} (hf : Function.Injective f) :
    Function.Injective (rename f) := by
  intro t u h
  induction t generalizing u with
  | prim p =>
      cases u with
      | prim q => exact h
      | var y => cases h
      | app l r => cases h
  | var x =>
      cases u with
      | prim q => cases h
      | var y => rw [hf (var.inj h)]
      | app l r => cases h
  | app l r ihl ihr =>
      cases u with
      | prim q => cases h
      | var y => cases h
      | app l' r' =>
          obtain ⟨hl, hr⟩ := app.inj h
          rw [ihl hl, ihr hr]

variable (f : VarName → VarName)

/-- Arguments are renamed one by one. -/
theorem argument_map_rename (args : List Term) (number : Nat) :
    argument (args.map (rename f)) number = (argument args number).rename f := by
  rw [argument, argument, List.getD_eq_getElem?_getD, List.getD_eq_getElem?_getD,
    List.getElem?_map]
  cases args[number - 1]? <;> rfl

/-- A renamed term is a redex for the same rule. -/
theorem redex?_rename (t : Term) :
    (t.rename f).redex? = t.redex?.map fun found => (found.1, found.2.map (rename f)) := by
  match t with
  | prim p => rfl
  | var x => rfl
  | app (prim p) a => cases p <;> rfl
  | app (var x) a => rfl
  | app (app (prim p) a) b => cases p <;> rfl
  | app (app (var x) a) b => rfl
  | app (app (app (prim p) a) b) c => cases p <;> rfl
  | app (app (app (var x) a) b) c => rfl
  | app (app (app (app h a) b) c) d => rfl

end Term

open Term

/-- An event at a renamed redex. -/
def Event.rename (f : VarName → VarName) : Event → Event
  | fired rule redex => fired rule (redex.rename f)
  | fallback redex => fallback (redex.rename f)

/-- A state with a renamed trace.  The guard is left as it is, because its entries need not be
the texts of terms. -/
def Run.rename {α : Type} (f : VarName → VarName) (s : Run α) : Run α :=
  { s with trace := s.trace.map (Event.rename f) }

/-- `Renamed f p p'` says that the plan `p'` makes the calls of `p` for the renamed terms, if
it gets the renamed answers. -/
inductive Plan.Renamed (f : VarName → VarName) : Plan Term → Plan Term → Prop
  | done (r : Term) : Renamed f (.done r) (.done (r.rename f))
  | call (t : Term) {next next' : Term → Plan Term}
      (h : ∀ r, Renamed f (next r) (next' (r.rename f))) :
      Renamed f (.call t next) (.call (t.rename f) next')
  | commit {next next' : Bool → Plan Term} (h : ∀ fresh, Renamed f (next fresh) (next' fresh)) :
      Renamed f (.commit next) (.commit next')

/-- The plan of a rule for renamed arguments. -/
theorem Rule.plan_renamed (f : VarName → VarName) (arg : Nat → Term) (rule : Rule) :
    Plan.Renamed f (rule.plan arg) (rule.plan fun number => (arg number).rename f) := by
  cases rule with
  | identity => exact .done _
  | identityApplied =>
      refine .commit fun fresh => .call _ fun a => .call _ fun b => ?_
      cases fresh with
      | false => exact .done (app a b)
      | true => exact .call (app a b) fun r => .done r
  | constant => exact .done _
  | identityAppliedTwice =>
      refine .commit fun fresh => .call _ fun a => ?_
      cases fresh with
      | false => exact .done (app (app a (arg 2)) (arg 3))
      | true =>
          exact .call _ fun b => .call (app a b) fun head => .call _ fun c =>
            .call (app head c) fun r => .done r
  | constantApplied => exact .call (app (arg 1) (arg 3)) fun r => .done r
  | substitution =>
      refine .commit fun fresh => ?_
      cases fresh with
      | false =>
          exact .call (app (app (arg 1) (arg 3)) (app (arg 2) (arg 3))) fun r => .done r
      | true =>
          exact .call (app (arg 1) (arg 3)) fun left => .call (app (arg 2) (arg 3)) fun right =>
            .call (app left right) fun r => .done r
  | pair =>
      exact .call (app (arg 1) (arg 2)) fun left => .call (app (arg 3) (arg 4)) fun right =>
        .call (app left right) fun r => .done r
  | nestedHead =>
      refine .call _ fun a => .commit fun fresh =>
        .call (app (app a (arg 2)) (arg 3)) fun inner => ?_
      cases fresh with
      | false => exact .call _ fun d => .done (app inner d)
      | true => exact .call (app inner (arg 4)) fun r => .done r

namespace Evaluation

section

variable {α β γ δ ε : Type} {f : VarName → VarName}

/-- A result with another value, in a renamed state. -/
def renamed (f : VarName → VarName) (φ : β → γ) :
    EStateM.Result Stop (Run α) β → EStateM.Result Stop (Run α) γ
  | .ok b s => .ok (φ b) (s.rename f)
  | .error e s => .error e (s.rename f)

@[simp] theorem outcome_renamed (φ : β → γ) (result : EStateM.Result Stop (Run α) β) :
    outcome (renamed f φ result) = (outcome result).map φ := by
  cases result <;> rfl

@[simp] theorem last_renamed (φ : β → γ) (result : EStateM.Result Stop (Run α) β) :
    last (renamed f φ result) = (last result).rename f := by
  cases result <;> rfl

/-- The computation `x'` does from renamed states what `x` does, with values changed by `φ`. -/
def Renames (f : VarName → VarName) (φ : β → γ) (x : Evaluation α β) (x' : Evaluation α γ) :
    Prop :=
  ∀ s, x' (s.rename f) = renamed f φ (x s)

theorem Renames.bind {φ : β → γ} {χ : δ → ε} {x : Evaluation α β} {x' : Evaluation α γ}
    {k : β → Evaluation α δ} {k' : γ → Evaluation α ε} (hx : Renames f φ x x')
    (hk : ∀ b, Renames f χ (k b) (k' (φ b))) : Renames f χ (x >>= k) (x' >>= k') := by
  intro s
  have hx := hx s
  cases hrun : x s with
  | ok b s₁ =>
      rw [hrun] at hx
      rw [bind_of_ok k' hx, bind_of_ok k hrun]
      exact hk b s₁
  | error e s₁ =>
      rw [hrun] at hx
      rw [bind_of_error k' hx, bind_of_error k hrun]
      rfl

theorem renames_pure (φ : β → γ) (b : β) :
    Renames f φ (pure b : Evaluation α β) (pure (φ b)) := fun _ => rfl

theorem renames_pay : Renames f id (pay : Evaluation α Unit) pay := by
  intro s
  have hbudget : (s.rename f).budget = s.budget := rfl
  rw [pay_apply, pay_apply, hbudget]
  cases (s.budget.spend .one).check <;> rfl

theorem renames_record (e : Event) :
    Renames f id (record e : Evaluation α Unit) (record (e.rename f)) := by
  intro s
  simp [record_apply, Run.rename, renamed]

/-- A renamed plan is carried out as the plan is, if its calls are. -/
theorem renames_run {normalize normalize' : Term → Evaluation α Term}
    {register register' : Evaluation α Bool}
    (hcall : ∀ t, Renames f (rename f) (normalize t) (normalize' (t.rename f)))
    (hcommit : Renames f id register register') {p p' : Plan Term} (hp : p.Renamed f p') :
    Renames f (rename f) (p.run normalize register) (p'.run normalize' register') := by
  induction hp with
  | done r => exact renames_pure (rename f) r
  | call t _ ih => exact (hcall t).bind ih
  | commit _ ih => exact hcommit.bind ih

variable [DecidableEq α] {o : Owner} {entry : Term → α}

/-- The commit of a renamed redex is that of the redex under the entry of the renamed one. -/
theorem renames_commit (t : Term) :
    Renames f id (commit o (fun u => entry (u.rename f)) t) (commit o entry (t.rename f)) := by
  intro s
  have hguard : (s.rename f).guard = s.guard := rfl
  rw [commit_apply, commit_apply, hguard]
  cases (s.guard.commit o (entry (t.rename f))).1 <;> simp [Run.rename, renamed, Event.rename]

/-- **Normalization of a renamed term is the renamed normalization** of the term, with the
entries of the renamed redexes. -/
theorem renames_normalizeBy (n : Nat) (t : Term) :
    Renames f (rename f) (normalizeBy o (fun u => entry (u.rename f)) n t)
      (normalizeBy o entry n (t.rename f)) := by
  induction n generalizing t with
  | zero => exact fun _ => rfl
  | succ n ih =>
      have hredex := redex?_rename f t
      cases hred : t.redex? with
      | none =>
          rw [hred] at hredex
          rw [normalizeBy_of_none n hred, normalizeBy_of_none n hredex]
          exact renames_pure (rename f) t
      | some found =>
          obtain ⟨rule, args⟩ := found
          rw [hred] at hredex
          have hplan := rule.plan_renamed f (argument args)
          rw [← funext (argument_map_rename f args)] at hplan
          rw [normalizeBy_of_some n hred, normalizeBy_of_some n hredex]
          exact renames_pay.bind fun _ => (renames_record _).bind fun _ =>
            renames_run ih (renames_commit t) hplan

end

/-- A commit to a guard in which an owner has the entries of terms adds the term to them. -/
theorem commit_of_entries_eq_map {α : Type} [DecidableEq α] {entry : Term → α}
    (hentry : Function.Injective entry) {g : Guard α} {o : Owner} {us : List Term}
    (hg : g.entries o = us.map entry) (t : Term) :
    (g.commit o (entry t)).1 = decide (t ∉ us) ∧
      (g.commit o (entry t)).2.entries o = (us.insert t).map entry := by
  have hmem : entry t ∈ g.entries o ↔ t ∈ us := by
    rw [hg, List.mem_map_of_injective hentry]
  refine ⟨by rw [Guard.commit_fst, decide_eq_decide, hmem], ?_⟩
  by_cases ht : t ∈ us
  · rw [Guard.commit_of_mem (hmem.2 ht), List.insert_of_mem ht, hg]
  · rw [Guard.entries_commit, if_pos ⟨rfl, mt hmem.1 ht⟩, hg, List.insert_of_not_mem ht,
      List.map_cons]

/-- Two guards in which an owner has committed the same terms, in the one with their own names
and in the other with those that `f` gives them. -/
def SameRenamed (o : Owner) (f : VarName → VarName) (g g' : Guard String) : Prop :=
  ∃ us : List Term, g.entries o = us.map script ∧
    g'.entries o = us.map fun u => (u.rename f).script

/-- Engines that enter redexes and renamed redexes are coupled by the terms that were
committed. -/
theorem coupling_renamed (o : Owner) {f : VarName → VarName} (hf : Function.Injective f) :
    Coupling (Agree (SameRenamed o f)) (fun _ => True) o script
      (fun u => (u.rename f).script) fun _ => True := by
  have hinj : Function.Injective fun u : Term => (u.rename f).script :=
    script_injective.comp (rename_injective hf)
  refine coupling_of_guards (fun _ _ _ _ => trivial) ?_
  rintro t - - g g' ⟨us, hg, hg'⟩
  obtain ⟨hfresh, hentries⟩ := commit_of_entries_eq_map script_injective hg t
  obtain ⟨hfresh', hentries'⟩ := commit_of_entries_eq_map hinj hg' t
  exact ⟨hfresh.trans hfresh'.symm, us.insert t, hentries, hentries'⟩

/-- With a fresh guard, the run of a renamed term is a renamed run that is in step with the run
of the term. -/
theorem exists_renamed_run {f : VarName → VarName} (hf : Function.Injective f) (o : Owner)
    (t : Term) (nesting : Nat) (b : Budget) :
    ∃ middle, Paired (Agree (SameRenamed o f)) (fun _ => True)
        (normalize o nesting t ⟨.empty, b, #[]⟩) middle ∧
      normalize o nesting (t.rename f) ⟨.empty, b, #[]⟩ = renamed f (rename f) middle := by
  have hstart : SameRenamed o f .empty .empty := ⟨[], rfl, rfl⟩
  have hfresh : (⟨.empty, b, #[]⟩ : Run String).rename f = ⟨.empty, b, #[]⟩ := by
    simp [Run.rename]
  have hrenames : Renames f (rename f) (normalizeBy o (fun u => (u.rename f).script) nesting t)
      (normalizeBy o script nesting (t.rename f)) := renames_normalizeBy nesting t
  have hrun := hrenames ⟨.empty, b, #[]⟩
  rw [hfresh, ← normalize_eq] at hrun
  refine ⟨_, ?_, hrun⟩
  rw [normalize_eq]
  exact (coupling_renamed o hf).normalizeBy nesting t trivial _ _ ⟨rfl, rfl, hstart⟩

end Evaluation

open Evaluation

/-- **Normalization commutes with renaming.**  Let an injective function give other names to
the variables of a term.  With a fresh guard, normalization of the renamed term halts exactly
if that of the term does; and with every budget it has the renamed result, or the same stop,
counts the same firings and records the renamed events, and what it commits are the texts of
the renamed redexes. -/
theorem renaming_commutes (f : VarName → VarName) (hf : Function.Injective f) (o : Owner)
    (t : Term) :
    (Halts o (t.rename f) .empty ↔ Halts o t .empty) ∧
      ∀ (nesting : Nat) (b : Budget),
        let result := normalize o nesting t ⟨.empty, b, #[]⟩
        let result' := normalize o nesting (t.rename f) ⟨.empty, b, #[]⟩
        outcome result' = (outcome result).map (rename f) ∧
          (last result').budget = (last result).budget ∧
          (last result').trace = (last result).trace.map (Event.rename f) ∧
          ∃ us : List Term, (last result).guard.entries o = us.map script ∧
            (last result').guard.entries o = us.map fun u => (u.rename f).script := by
  have hruns : ∀ nesting b,
      outcome (normalize o nesting (t.rename f) ⟨.empty, b, #[]⟩) =
        (outcome (normalize o nesting t ⟨.empty, b, #[]⟩)).map (rename f) := by
    intro nesting b
    obtain ⟨middle, hpair, hrenamed⟩ := exists_renamed_run hf o t nesting b
    rw [hrenamed, outcome_renamed, hpair.outcome_eq]
  constructor
  · rw [halts_iff_outcome, halts_iff_outcome]
    simp only [hruns]
    refine exists_congr fun n => ?_
    cases outcome (normalize o n t ⟨.empty, .unbounded, #[]⟩) <;> simp [Except.map]
  · intro nesting b result result'
    refine ⟨hruns nesting b, ?_⟩
    obtain ⟨middle, hpair, hrenamed⟩ := exists_renamed_run hf o t nesting b
    have hlast : last result' = (last middle).rename f := by
      rw [← last_renamed (rename f), ← hrenamed]
    obtain ⟨us, hus, hus'⟩ := hpair.related.guard
    rw [hlast, hpair.related.trace]
    exact ⟨hpair.related.budget.symm, rfl, us, hus, hus'⟩

/-- Two names are exchanged, of which one begins with the letter of a primitive: a redex of `S`
comes to the renamed result, by one firing, and commits its renamed text. -/
theorem renaming_commutes_of_swap :
    let x : VarName := ⟨"x", rfl⟩
    let y : VarName := ⟨"Sx", rfl⟩
    let t := app (app (app S (var x)) (var y)) (var x)
    let start : Run String := ⟨.empty, .unbounded, #[]⟩
    let result := normalize (.thread .main) 2 (t.rename (Equiv.swap x y)) start
    Function.Injective (Equiv.swap x y) ∧
      t.rename (Equiv.swap x y) = app (app (app S (var y)) (var x)) (var y) ∧
      outcome result = .ok (app (app (var y) (var y)) (app (var x) (var y))) ∧
      (last result).budget = .counted none 1 ∧
      (last result).guard.entries (.thread .main) =
        [(app (app (app S (var y)) (var x)) (var y)).script] := by
  intro x y t start result
  have hinj : Function.Injective (Equiv.swap x y) := (Equiv.swap x y).injective
  have hx : Equiv.swap x y x = y := Equiv.swap_apply_left x y
  have hy : Equiv.swap x y y = x := Equiv.swap_apply_right x y
  have hrename : t.rename (Equiv.swap x y) = app (app (app S (var y)) (var x)) (var y) := by
    simp [t, rename, hx, hy]
  obtain ⟨hout, hbudget, -, us, hus, hus'⟩ :=
    (renaming_commutes (Equiv.swap x y) hinj (.thread .main) t).2 2 .unbounded
  have hempty : t.script ∉ (Guard.empty : Guard String).entries (.thread .main) :=
    List.not_mem_nil
  have hrun : Evaluates (.thread .main) t .empty [.fired .substitution t]
      (app (app (var x) (var x)) (app (var y) (var x))) _ :=
    .fire rfl (.commit_new hempty (.normal rfl (.normal rfl (.normal rfl (.done t _ _)))))
  have hnormalize : normalize (.thread .main) 2 t start = .ok _ ⟨_, .counted none 1, _⟩ :=
    hrun.normalize
  rw [hnormalize] at hout hbudget hus
  -- The text that is committed tells which term it is of.
  have hcommitted : us.map script = [t].map script := hus.symm
  obtain rfl : us = [t] := List.map_injective_iff.2 script_injective hcommitted
  refine ⟨hinj, hrename, hout.trans ?_, hbudget, hus'.trans ?_⟩
  · simp [outcome, Except.map, rename, hx, hy]
  · rw [List.map_singleton, hrename]

end Combinatory
