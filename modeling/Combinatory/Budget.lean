import Combinatory.Fault

/-!
# Budgets

A budget counts the rules that fire, and may have a limit.  The count goes on when
the limit is passed: a budget that has been exceeded stays so, unless steps are given
back.

## Main definitions

* `Budget`: a limit and a count.
* `Budget.ofLimit`: a new budget.
* `Budget.spend`, `Budget.check`: count steps, and see whether the limit still holds.
* `Budget.remaining`: what is left.
-/

namespace Combinatory

/-- A count of steps, and the limit that it is held to if there is one. -/
structure Budget where
  limit : Option Number
  total : Number
deriving DecidableEq, Repr

namespace Budget

/-- A new budget without a limit. -/
def unbounded : Budget := ⟨none, .zero⟩

instance : Inhabited Budget := ⟨unbounded⟩

/-- A new budget with the limit given, if one is. -/
def ofLimit : Option Number → Except Fault Budget
  | none => .ok unbounded
  | some limit =>
      if limit.lt .zero then .error (.negativeLimit limit) else .ok ⟨some limit, .zero⟩

/-- Count steps; a negative number gives some back. -/
def spend (b : Budget) (steps : Number) : Budget := { b with total := b.total.add steps }

/-- Refuse a budget that counts more steps than its limit allows.  The message shows the count
and the limit; if one of them has too many digits to be written, the fault is reported as an
error of value instead (`Fault.kind`, `Fault.message`). -/
def check (b : Budget) : Except Fault Unit :=
  match b.limit with
  | some limit => if limit.lt b.total then .error (.limitExceeded b.total limit) else .ok ()
  | none => .ok ()

/-- The steps that are left, where there is a limit.  A limit and a count that have no
difference are a fault. -/
def remaining (b : Budget) : Except Fault (Option Number) :=
  match b.limit with
  | none => .ok none
  | some limit =>
      if limit.addable b.total then
        let left := limit.sub b.total
        .ok (some (if Number.zero.lt left then left else .zero))
      else .error .beyondDoubles

@[simp] theorem limit_spend (b : Budget) (steps : Number) :
    (b.spend steps).limit = b.limit := rfl

@[simp] theorem total_spend (b : Budget) (steps : Number) :
    (b.spend steps).total = b.total.add steps := rfl

/-- A new budget has the limit that it was made with, and has counted nothing. -/
theorem eq_of_ofLimit {limit : Option Number} {b : Budget} (h : ofLimit limit = .ok b) :
    b = ⟨limit, .zero⟩ := by
  cases limit with
  | none =>
      cases h
      rfl
  | some l =>
      rw [ofLimit] at h
      split at h
      · cases h
      · cases h
        rfl

/-- A budget passes the check exactly when no limit of it is less than its count. -/
theorem check_eq_ok_iff (b : Budget) :
    b.check = .ok () ↔ ∀ limit ∈ b.limit, limit.lt b.total = false := by
  unfold check
  cases b.limit with
  | none => simp
  | some limit => cases h : limit.lt b.total <;> simp [h]

end Budget

namespace Datum

/-- The limit that a datum asks for: null asks for none. -/
def toLimit : Datum → Except Fault (Option Number)
  | null => .ok none
  | number n => .ok (some n)
  | other => .error (.notComparable other)

/-- The steps that a datum stands for, to be added to a total. -/
def toSteps (total : Number) : Datum → Except Fault Number
  | number n => if total.addable n then .ok n else .error .beyondDoubles
  | other => .error (.notSummable total other)

end Datum

end Combinatory
