/-!
# Scopes

An evaluation that is given no guard takes one by its scope.

## Main definitions

* `Scope`: the two scopes.
* `Scope.name`, `Scope.ofName?`: their names.
-/

namespace Combinatory

/-- Where an evaluation that is given no guard takes one from: a fresh guard for each
call, or the one guard of the process. -/
inductive Scope
  | call
  | process
deriving DecidableEq, Repr

namespace Scope

/-- The name of a scope. -/
def name : Scope → String
  | call => "call"
  | process => "process"

/-- The scopes, in the order of their names. -/
def all : List Scope := [call, process]

/-- The scope of a name. -/
def ofName? (s : String) : Option Scope := all.find? fun scope => decide (scope.name = s)

@[simp] theorem ofName?_name (s : Scope) : ofName? s.name = some s := by
  cases s <;> decide

/-- Reading a name accepts exactly what naming gives. -/
theorem ofName?_eq_some_iff {s : String} {scope : Scope} :
    ofName? s = some scope ↔ s = scope.name := by
  constructor
  · intro h
    have := List.find?_some h
    exact (of_decide_eq_true this).symm
  · rintro rfl
    exact ofName?_name scope

end Scope

end Combinatory
