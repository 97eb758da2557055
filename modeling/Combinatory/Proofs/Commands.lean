import Combinatory.Proofs.Outcome
import Combinatory.Session

/-!
# What a normalization in a session does

A normalization in a session finds a guard, makes a budget, and runs the evaluation on both.
Each of these is described once and completely, so that what holds of evaluations can be said
of sessions (`Session.normalize_apply`).

## Main definitions

* `Report.ofRun`: the report on a run.
* `Session.newBudget`: the budget that an evaluation gets, or the reason why it gets none.
* `Session.keep`: a session with a guard and a budget as an evaluation left them.

## Main results

* `Session.resolveBudget_apply`, `Session.evaluate_apply`, `Session.normalize_apply`: the
  commands.
-/

namespace Combinatory

/-- The report on a run for an owner. -/
def Report.ofRun (o : Owner) (result : EStateM.Result Stop (Run String) Term) : Report where
  outcome := Evaluation.outcome result
  trace := (Evaluation.last result).trace
  budget := (Evaluation.last result).budget
  committed := (Evaluation.last result).guard.listing o

namespace Session

/-- The budget that an evaluation gets for a cap; one that is null is that of the settings. -/
def newBudget (settings : Settings) (cap : Datum) : Except Fault Budget :=
  let cap : Datum := match cap, settings.cap with
    | .null, some n => .number (.integer n)
    | other, _ => other
  cap.toLimit >>= Budget.ofLimit

/-- The session after an evaluation on a guard and a new budget. -/
def keep (S : Session) (id : Nat) (s : Run String) : Session :=
  { S with guards := S.guards.set id s.guard, budgets := (S.budgets.add s.budget).2 }

variable (o : Owner) (t : Term) (given : Option Nat) (scope cap : Datum) (S : Session)

/-- A budget is made, or the session stays as it was. -/
theorem addBudget_apply (limit : Datum) :
    addBudget limit S = match limit.toLimit >>= Budget.ofLimit with
      | .ok b => .ok (S.budgets.add b).1 { S with budgets := (S.budgets.add b).2 }
      | .error f => .error f S := by
  rw [addBudget]
  cases limit.toLimit >>= Budget.ofLimit <;> rfl

theorem resolveBudget_apply :
    resolveBudget cap S = match newBudget S.settings cap with
      | .ok b => .ok (S.budgets.add b).1 { S with budgets := (S.budgets.add b).2 }
      | .error f => .error f S :=
  addBudget_apply S _

/-- An evaluation leaves its guard and its budget as its run left them. -/
theorem evaluate_apply (e : Evaluator) (action : Nat → Evaluation String Term) :
    evaluate e o action S =
      let b := S.budgets.get e.budget
      let result := action b.nesting ⟨S.guards.get e.guard, b, #[]⟩
      .ok (.ofRun o result)
        { S with
          guards := S.guards.set e.guard (Evaluation.last result).guard
          budgets := S.budgets.set e.budget (Evaluation.last result).budget } := by
  rw [evaluate, modifyGet_apply]
  dsimp only
  generalize action (S.budgets.get e.budget).nesting _ = result
  cases result <;> rfl

/-- A normalization finds its guard, then makes its budget, and runs on both; where one of
them is refused, the session stays as it is then. -/
theorem normalize_apply :
    normalize o (.term t) given scope cap S = match resolveGuard given scope S with
      | .ok id S₁ => match newBudget S₁.settings cap with
        | .ok b =>
          let result := Evaluation.normalize o b.nesting t ⟨S₁.guards.get id, b, #[]⟩
          .ok (.ofRun o result) (S₁.keep id (Evaluation.last result))
        | .error f => .error f S₁
      | .error f S₁ => .error f S₁ := by
  have h : normalize o (.term t) given scope cap S = (resolveGuard given scope >>= fun guard =>
      resolveBudget cap >>= fun budget =>
        evaluate ⟨guard, budget⟩ o fun nesting => Evaluation.normalize o nesting t) S := by
    simp only [normalize, prepare, bind_assoc, pure_bind]
  rw [h]
  cases hguard : resolveGuard given scope S with
  | error f S₁ => rw [bind_of_error _ hguard]
  | ok id S₁ =>
      rw [bind_of_ok _ hguard]
      have hbudget := resolveBudget_apply cap S₁
      dsimp only
      cases hnew : newBudget S₁.settings cap with
      | error f =>
          rw [hnew] at hbudget
          rw [bind_of_error _ hbudget]
      | ok b =>
          rw [hnew] at hbudget
          rw [bind_of_ok _ hbudget, evaluate_apply]
          simp only [Pool.get_add, Pool.set_add]
          rfl

end Session

end Combinatory
