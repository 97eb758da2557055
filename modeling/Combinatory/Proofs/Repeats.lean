import Combinatory.Proofs.CallGraph

/-!
# Redexes committed before

Where the guard has a redex already, a rule that commits takes its other branch.  These
branches are described once as big steps and once as calls: what a redex comes to with the
guard as it is, and what is called on the way.  The rules that do not commit are treated
likewise as far as the others lead to them.

## Main definitions

* `Settles`: a term comes to a result and leaves the guard as it is.
* `Plan.AsksFor`: the calls of a plan, without the events before them.

## Main results

* `Settles.substitution`, `Settles.nestedHead`, `Settles.identityApplied`: repeated redexes
  that come to something.
* `calls_substitution_iff`, `calls_nestedHead_iff`, `calls_identityApplied_iff`: the calls
  of repeated redexes.
-/

namespace Combinatory

open Term Event

/-- A term comes to a result, and the guard is left as it is. -/
def Settles (o : Owner) (g : Guard String) (t r : Term) : Prop := ∃ es, Evaluates o t g es r g

namespace Plan

/-- A plan for a redex comes to a result, and the guard is left as it is. -/
def Settles (o : Owner) (redex : Term) (g : Guard String) (p : Plan Term) (r : Term) : Prop :=
  ∃ es, p.Yields o redex g es r g

/-- The plan of a redex calls for a term with a guard. -/
def AsksFor (o : Owner) (redex : Term) (g : Guard String) (p : Plan Term)
    (y : Term × Guard String) : Prop :=
  ∃ es, p.Asks o redex g es y.1 y.2

variable {o : Owner} {redex t u r : Term} {g : Guard String} {next : Term → Plan Term}
  {choose : Bool → Plan Term} {y : Term × Guard String}

/-! ## Plans with an old redex -/

theorem settles_done (o : Owner) (redex : Term) (g : Guard String) (r : Term) :
    Settles o redex g (.done r) r := comes_done o redex r g

theorem settles_call (hcall : Combinatory.Settles o g t u) (h : Settles o redex g (next u) r) :
    Settles o redex g (.call t next) r := comes_call hcall h

/-- A redex that is in the guard takes the branch for a repeated commit. -/
theorem settles_commit (hold : redex.script ∈ g.entries o)
    (h : Settles o redex g (choose false) r) : Settles o redex g (.commit choose) r :=
  comes_commit_old hold h

theorem not_asksFor_done : ¬ AsksFor o redex g (.done r) y := by
  rintro ⟨es, h⟩
  cases h

theorem asksFor_call : AsksFor o redex g (.call t next) y ↔
    y = (t, g) ∨ ∃ u g', (∃ es, Evaluates o t g es u g') ∧ AsksFor o redex g' (next u) y := by
  obtain ⟨v, h⟩ := y
  constructor
  · rintro ⟨es, ha⟩
    cases ha with
    | here => exact .inl rfl
    | call first rest => exact .inr ⟨_, _, ⟨_, first⟩, _, rest⟩
  · rintro (heq | ⟨u, g', ⟨es, first⟩, es', rest⟩)
    · cases heq
      exact ⟨[], .here t next g⟩
    · exact ⟨es ++ es', .call first rest⟩

/-- After a call that settles, a plan goes on with the same guard. -/
theorem asksFor_call_of_settles (hcall : Combinatory.Settles o g t u) :
    AsksFor o redex g (.call t next) y ↔ y = (t, g) ∨ AsksFor o redex g (next u) y := by
  obtain ⟨es, hcall⟩ := hcall
  rw [asksFor_call]
  constructor
  · rintro (heq | ⟨u', g', ⟨es', hcall'⟩, rest⟩)
    · exact .inl heq
    · obtain ⟨-, rfl, rfl⟩ := hcall.unique hcall'
      exact .inr rest
  · rintro (heq | rest)
    · exact .inl heq
    · exact .inr ⟨u, g, ⟨es, hcall⟩, rest⟩

/-- A redex that is in the guard takes the branch for a repeated commit. -/
theorem asksFor_commit (hold : redex.script ∈ g.entries o) :
    AsksFor o redex g (.commit choose) y ↔ AsksFor o redex g (choose false) y := by
  constructor
  · rintro ⟨es, ha⟩
    cases ha with
    | commit rest =>
        rw [Guard.commit_of_mem hold] at rest
        exact ⟨_, rest⟩
  · rintro ⟨es, ha⟩
    refine ⟨ofCommit redex (g.commit o redex.script).1 ++ es, .commit ?_⟩
    rw [Guard.commit_of_mem hold]
    exact ha

/-- A redex that is not in the guard takes the branch for a new commit. -/
theorem asksFor_commit_new (hnew : redex.script ∉ g.entries o)
    (ha : AsksFor o redex (g.commit o redex.script).2 (choose true) y) :
    AsksFor o redex g (.commit choose) y := by
  obtain ⟨es, ha⟩ := ha
  have hfresh : (g.commit o redex.script).1 = true := by simpa using hnew
  rw [← hfresh] at ha
  exact ⟨_, .commit ha⟩

end Plan

section

variable {o : Owner} {g : Guard String} {t a b c d h r u v : Term} {rule : Rule}
  {args : List Term} {y : Term × Guard String}

/-! ## What old redexes come to -/

namespace Settles

/-- A term that no rule applies to stays as it is. -/
theorem of_redex?_eq_none (o : Owner) (g : Guard String) (hred : t.redex? = none) :
    Settles o g t t := Comes.of_redex?_eq_none o g hred

/-- A redex comes to what the plan of its rule comes to. -/
theorem of_redex?_eq_some (hred : t.redex? = some (rule, args))
    (h : (rule.plan (argument args)).Settles o t g r) : Settles o g t r :=
  Comes.of_redex?_eq_some hred h

theorem identity (o : Owner) (g : Guard String) (a : Term) : Settles o g (app I a) a :=
  of_redex?_eq_some rfl (Plan.settles_done o _ g a)

theorem constant (o : Owner) (g : Guard String) (a b : Term) :
    Settles o g (app (app K a) b) a :=
  of_redex?_eq_some rfl (Plan.settles_done o _ g a)

theorem identityApplied (hold : (app (app I a) b).script ∈ g.entries o)
    (ha : Settles o g a u) (hb : Settles o g b v) :
    Settles o g (app (app I a) b) (app u v) :=
  of_redex?_eq_some rfl (Plan.settles_commit hold
    (Plan.settles_call ha (Plan.settles_call hb (Plan.settles_done o _ g _))))

theorem substitution (hold : (app (app (app S a) b) c).script ∈ g.entries o)
    (h : Settles o g (app (app a c) (app b c)) r) :
    Settles o g (app (app (app S a) b) c) r :=
  of_redex?_eq_some rfl (Plan.settles_commit hold
    (Plan.settles_call h (Plan.settles_done o _ g r)))

/-- The head is an application whose own head is not looked at. -/
theorem nestedHead (hold : (app (app (app (app h a) b) c) d).script ∈ g.entries o)
    (hhead : Settles o g (app h a) u) (hinner : Settles o g (app (app u b) c) v)
    (hd : Settles o g d r) : Settles o g (app (app (app (app h a) b) c) d) (app v r) :=
  of_redex?_eq_some rfl (Plan.settles_call hhead (Plan.settles_commit hold
    (Plan.settles_call hinner (Plan.settles_call hd (Plan.settles_done o _ g _)))))

end Settles

/-! ## What old redexes call -/

/-- A redex calls what the plan of its rule calls. -/
theorem calls_iff (hred : t.redex? = some (rule, args)) :
    Calls o (t, g) y ↔ (rule.plan (argument args)).AsksFor o t g y := by
  constructor
  · rintro ⟨rule', args', es, hred', ha⟩
    rw [hred] at hred'
    cases hred'
    exact ⟨es, ha⟩
  · rintro ⟨es, ha⟩
    exact ⟨rule, args, es, hred, ha⟩

theorem not_calls_identity : ¬ Calls o (app I a, g) y := by
  rw [calls_iff rfl]
  exact Plan.not_asksFor_done

theorem not_calls_constant : ¬ Calls o (app (app K a) b, g) y := by
  rw [calls_iff rfl]
  exact Plan.not_asksFor_done

theorem calls_identityApplied_iff (hold : (app (app I a) b).script ∈ g.entries o)
    (ha : Settles o g a u) (hb : Settles o g b v) :
    Calls o (app (app I a) b, g) y ↔ y = (a, g) ∨ y = (b, g) := by
  rw [calls_iff rfl]
  refine (Plan.asksFor_commit hold).trans ?_
  refine (Plan.asksFor_call_of_settles ha).trans (or_congr_right ?_)
  refine (Plan.asksFor_call_of_settles hb).trans ?_
  exact or_iff_left Plan.not_asksFor_done

theorem calls_substitution_iff (hold : (app (app (app S a) b) c).script ∈ g.entries o) :
    Calls o (app (app (app S a) b) c, g) y ↔ y = (app (app a c) (app b c), g) := by
  rw [calls_iff rfl]
  refine (Plan.asksFor_commit hold).trans ?_
  refine Plan.asksFor_call.trans (or_iff_left ?_)
  rintro ⟨u, g', -, h⟩
  exact Plan.not_asksFor_done h

/-- The last argument of a longer spine is called if the rest of the spine has come to
something. -/
theorem calls_nestedHead_iff (hold : (app (app (app (app h a) b) c) d).script ∈ g.entries o)
    (hhead : Settles o g (app h a) u) :
    Calls o (app (app (app (app h a) b) c) d, g) y ↔
      y = (app h a, g) ∨ y = (app (app u b) c, g) ∨
        ∃ v g', (∃ es, Evaluates o (app (app u b) c) g es v g') ∧ y = (d, g') := by
  rw [calls_iff rfl]
  refine (Plan.asksFor_call_of_settles hhead).trans ?_
  refine or_congr_right ((Plan.asksFor_commit hold).trans ?_)
  refine Plan.asksFor_call.trans (or_congr_right ?_)
  refine exists_congr fun v => exists_congr fun g' => and_congr_right fun _ => ?_
  refine Plan.asksFor_call.trans (or_iff_left ?_)
  rintro ⟨u, g', -, h⟩
  exact Plan.not_asksFor_done h

theorem calls_nestedHead_iff_of_settles
    (hold : (app (app (app (app h a) b) c) d).script ∈ g.entries o)
    (hhead : Settles o g (app h a) u) (hinner : Settles o g (app (app u b) c) v) :
    Calls o (app (app (app (app h a) b) c) d, g) y ↔
      y = (app h a, g) ∨ y = (app (app u b) c, g) ∨ y = (d, g) := by
  rw [calls_nestedHead_iff hold hhead]
  refine or_congr_right (or_congr_right ⟨?_, fun hy => ⟨v, g, hinner, hy⟩⟩)
  rintro ⟨v', g', ⟨es', hinner'⟩, hy⟩
  obtain ⟨es, hinner⟩ := hinner
  obtain ⟨-, -, rfl⟩ := hinner.unique hinner'
  exact hy

end

end Combinatory
