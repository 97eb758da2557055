import Combinatory.Proofs.Firing
import Combinatory.Proofs.Simulation

/-!
# The reference engine

An engine that knows nothing of texts.  It looks at the atom at the head of the left spine
and at the number of arguments behind it, and its guard holds terms.  The engine that
compares signatures with templates, and commits renderings, takes the same course.

## Main definitions

* `Term.head`, `Term.arguments`: the left spine of a term.
* `Term.select`: the rule for a head and a number of arguments.
* `Reference.normalize`: normalization by the reference engine.

## Main results

* `Term.select_eq`: selection by the spine is selection by the shape.
* `Evaluation.normalize_refines`: the two engines agree.
-/

namespace Combinatory

namespace Term

/-- The atom at the head of the left spine. -/
def head : Term → Term
  | app l _ => l.head
  | atom => atom

/-- The arguments on the left spine, from the innermost on. -/
def arguments : Term → List Term
  | app l r => l.arguments ++ [r]
  | _ => []

/-- A term applied to arguments. -/
def applyAll (t : Term) (args : List Term) : Term := args.foldl app t

/-- The rule for the head and the number of arguments, and the terms for its placeholders.
With four arguments or more, all but the last three belong to the nested head. -/
def select (t : Term) : Option (Rule × List Term) :=
  match t.head, t.arguments.length with
  | prim .I, 1 => some (.identity, t.arguments)
  | prim .I, 2 => some (.identityApplied, t.arguments)
  | prim .K, 2 => some (.constant, t.arguments)
  | prim .I, 3 => some (.identityAppliedTwice, t.arguments)
  | prim .K, 3 => some (.constantApplied, t.arguments)
  | prim .S, 3 => some (.substitution, t.arguments)
  | h, n + 4 =>
      some (.nestedHead,
        h.applyAll (t.arguments.take (n + 1)) :: t.arguments.drop (n + 1))
  | _, _ => none

theorem length_arguments_app (l r : Term) :
    (app l r).arguments.length = l.arguments.length + 1 := by
  simp [arguments]

/-- A term is its head applied to its arguments. -/
theorem applyAll_head_arguments (t : Term) : t.head.applyAll t.arguments = t := by
  induction t with
  | prim p => rfl
  | var x => rfl
  | app l r ihl ihr => simpa [head, arguments, applyAll] using ihl

/-- With four arguments or more, the head does not matter. -/
theorem select_of_length {t : Term} {n : Nat} (h : t.arguments.length = n + 4) :
    t.select = some (.nestedHead,
      t.head.applyAll (t.arguments.take (n + 1)) :: t.arguments.drop (n + 1)) := by
  rw [select, h]
  cases t.head with
  | prim p => cases p <;> rfl
  | _ => rfl

/-- **Selection by the spine is selection by the shape.** -/
theorem select_eq (t : Term) : t.select = t.redex? := by
  rcases t with p | x | ⟨l, d⟩
  · cases p <;> rfl
  · rfl
  rcases l with p | x | ⟨l, c⟩
  · cases p <;> rfl
  · rfl
  rcases l with p | x | ⟨l, b⟩
  · cases p <;> rfl
  · rfl
  rcases l with p | x | ⟨h, a⟩
  · cases p <;> rfl
  · rfl
  have hargs : (app (app (app (app h a) b) c) d).arguments =
      (h.arguments ++ [a]) ++ [b, c, d] := by
    simp [arguments]
  have hlength : (h.arguments ++ [a]).length = h.arguments.length + 1 := by simp
  rw [select_of_length (n := h.arguments.length) (by rw [hargs]; simp), hargs,
    List.take_left' hlength, List.drop_left' hlength]
  -- What is left of the last three arguments is the nested head.
  have hhead : h.head.applyAll (h.arguments ++ [a]) = app h a := applyAll_head_arguments (app h a)
  change some (Rule.nestedHead, h.head.applyAll (h.arguments ++ [a]) :: [b, c, d]) = _
  rw [hhead]
  rfl

end Term

namespace Reference

/-- Normalization by the reference engine.  A rule does with its arguments what it does in
the other engine. -/
def normalize (o : Owner) : Nat → Term → Evaluation Term Term
  | 0, _ => throw .tooDeep
  | nesting + 1, t =>
      match t.select with
      | none => return t
      | some (rule, args) => do
          Evaluation.pay
          Evaluation.record (.fired rule t)
          rule.contract (fun number => pure (Term.argument args number)) (normalize o nesting)
            (Evaluation.commit o id t)

/-- The reference engine runs the plans of the rules, with terms as entries. -/
theorem normalize_eq (o : Owner) (nesting : Nat) :
    normalize o nesting = Evaluation.normalizeBy o id nesting := by
  induction nesting with
  | zero => rfl
  | succ nesting ih =>
      funext t
      rw [normalize, Term.select_eq]
      cases hred : t.redex? with
      | none => rw [Evaluation.normalizeBy_of_none nesting hred]
      | some found =>
          obtain ⟨rule, args⟩ := found
          rw [Evaluation.normalizeBy_of_some nesting hred, Evaluation.fire, ← ih]
          simp only [rule.contract_eq_run (normalize o nesting) (Evaluation.commit o id t)
            fun number _ _ => rfl]

end Reference

namespace Evaluation

/-- A guard with texts and a guard with terms that an owner has committed the same terms
to. -/
def SameTerms (o : Owner) (g : Guard String) (g' : Guard Term) : Prop :=
  ∀ u : Term, u.script ∈ g.entries o ↔ u ∈ g'.entries o

/-- **The engine that compares texts agrees with the reference engine**: from guards with
the same terms, and with any budget, both have the same outcome, count the same firings
and record the same events, and leave guards with the same terms.  The rule for two
applications never fires. -/
theorem normalize_refines (o : Owner) (nesting : Nat) (t : Term) (b : Budget)
    (g : Guard String) (g' : Guard Term) (hg : SameTerms o g g') :
    let result := normalize o nesting t ⟨g, b, #[]⟩
    let result' := Reference.normalize o nesting t ⟨g', b, #[]⟩
    outcome result = outcome result' ∧
      (last result).budget = (last result').budget ∧
      (last result).trace = (last result').trace ∧
      SameTerms o (last result).guard (last result').guard ∧
      ∀ u, Event.fired .pair u ∉ (last result).trace := by
  intro result result'
  have hmatch : Matched o Term.script id result result' := by
    have hsim := simulates_normalizeBy (o := o) Term.script_injective Function.injective_id
      nesting t
    rw [← normalize_eq, ← Reference.normalize_eq] at hsim
    exact hsim _ _ ⟨rfl, rfl, hg⟩
  have hpair : ∀ u, Event.fired .pair u ∉ (last result).trace := by
    intro u hfired
    have hfired' : Event.fired .pair u ∈
        (last (normalizeBy o Term.script nesting t ⟨g, b, #[]⟩)).trace := by
      rwa [← normalize_eq]
    rcases firesBelow_of_fired hfired' with hnone | ⟨args, -, hred, -⟩
    · exact absurd hnone (Array.not_mem_empty _)
    · exact Term.redex?_ne_pair hred
  generalize result = result at hmatch hpair ⊢
  generalize result' = result' at hmatch ⊢
  cases hmatch with
  | ok r halike => exact ⟨rfl, halike.budget, halike.trace, halike.guard, hpair⟩
  | error e halike => exact ⟨rfl, halike.budget, halike.trace, halike.guard, hpair⟩

/-- Both engines have the same outcome where the redex has been committed before, as a text
to the one guard and as a term to the other. -/
theorem normalize_refines_of_committed :
    let t := Term.app (.app (.app .I .K) .S) .I
    let g := (Guard.empty.commit (.thread .main) t.script).2
    let g' := (Guard.empty.commit (.thread .main) t).2
    SameTerms (.thread .main) g g' ∧
      outcome (normalize (.thread .main) 3 t ⟨g, .unbounded, #[]⟩) =
        outcome (Reference.normalize (.thread .main) 3 t ⟨g', .unbounded, #[]⟩) := by
  intro t g g'
  have hg : SameTerms (.thread .main) g g' := by
    intro u
    rw [Guard.mem_entries_commit, Guard.mem_entries_commit, Term.script_injective.eq_iff]
    simp
  exact ⟨hg, (normalize_refines (.thread .main) 3 t .unbounded g g' hg).1⟩

end Evaluation

end Combinatory
