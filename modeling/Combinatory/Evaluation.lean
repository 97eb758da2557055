import Combinatory.Budget
import Combinatory.Guard
import Combinatory.Rule

/-!
# Evaluation

An evaluation reduces a term until no rule applies.  It carries a guard, a budget and
a trace.  The signature of the term is taken at each depth of the catalogue in turn;
the first whose text is a template of that depth fires the rule of that template.
Every firing costs one step of the budget and is recorded, and so is every commit that
turned out not to be new.

Normalization is not bound to end, so it is given the number of calls that may be
nested in one another.  `Evaluation.normalize` stops as too deep where they are used
up; with a budget of integers they never are, if there is one call more than there are
steps left, because each level fires before it goes deeper.

## Main definitions

* `Event`, `Run`, `Stop`, `Evaluation`: the record of a run, its state, its ends, and
  the computations that have them.
* `Evaluation.matchRedex`: the rule that applies to a term, with the term's signature.
* `Evaluation.normalize`, `Evaluation.reduce`: reduction with and without a test for
  atoms.
* `Evaluation.apply`: one rule by itself.
* `Budget.nesting`: the nesting that a budget is given.
-/

namespace Combinatory

/-- What a trace records. -/
inductive Event
  /-- A rule fired at a redex. -/
  | fired (rule : Rule) (redex : Term)
  /-- A redex was committed that had been committed before. -/
  | fallback (redex : Term)
deriving DecidableEq

/-- The text of an event. -/
def Event.message : Event → String
  | fired rule redex => "rewrite " ++ rule.template ++ " at " ++ redex.script
  | fallback redex => "guard fallback at " ++ redex.script

/-- The state of an evaluation whose guard holds entries of type `α`; the trace is in
the order of the events. -/
structure Run (α : Type) where
  guard : Guard α
  budget : Budget
  trace : Array Event

/-- Why an evaluation ends without a term. -/
inductive Stop
  /-- Something was refused. -/
  | fault (cause : Fault)
  /-- The nested calls are used up. -/
  | tooDeep

/-- Computations that carry the state of an evaluation and may stop; a stop keeps the
state that it was reached in. -/
abbrev Evaluation (α : Type) := EStateM Stop (Run α)

namespace Stop

/-- The kind of error that a stop is reported as. -/
def kind : Stop → ErrorKind
  | fault cause => cause.kind
  | tooDeep => .nesting

/-- The message that a stop is reported with. -/
def message : Stop → String
  | fault cause => cause.message
  | tooDeep => ""

end Stop

namespace Evaluation

variable {α : Type}

/-- Go on with a result, or stop for its fault. -/
def lift {β : Type} : Except Fault β → Evaluation α β
  | .ok b => pure b
  | .error f => throw (.fault f)

/-- Record an event. -/
def record (e : Event) : Evaluation α Unit :=
  modify fun s => { s with trace := s.trace.push e }

/-- Pay for one firing.  The step is counted even if the budget does not allow it. -/
def pay : Evaluation α Unit := do
  modify fun s => { s with budget := s.budget.spend .one }
  lift (← get).budget.check

/-- Put an entry into the guard, and say whether it is new. -/
def enter [DecidableEq α] (o : Owner) (entry : α) : Evaluation α Bool :=
  modifyGet fun s =>
    let (fresh, guard) := s.guard.commit o entry
    (fresh, { s with guard := guard })

/-- Commit a redex under the entry that it has, and say whether it is new; if it is not,
the trace says so. -/
def commit [DecidableEq α] (o : Owner) (entry : Term → α) (redex : Term) :
    Evaluation α Bool := do
  let fresh ← enter o (entry redex)
  if fresh then
    return true
  else
    record (.fallback redex)
    return false

/-- The first signature of a term whose text is a template of the depth that it is
taken at, with the rule of that template. -/
def matchAt (t : Term) : List Nat → Except Fault (Option (Rule × Signature))
  | [] => .ok none
  | d :: rest => do
    let σ ← Signature.extract t d
    if ((Rule.atDepth d).map Rule.template).contains σ.text then
      return some (← Rule.ofTemplate σ.text, σ)
    else
      matchAt t rest

/-- The rule that applies to a term, with the term's signature. -/
def matchRedex (t : Term) : Except Fault (Option (Rule × Signature)) :=
  matchAt t Rule.depths

/-- Apply a rule to a redex with a signature, where `normalize` is used for the terms
that come of it. -/
def applyWith (o : Owner) (normalize : Term → Evaluation String Term) (rule : Rule)
    (redex : Term) (σ : Signature) : Evaluation String Term :=
  rule.contract (fun number => lift (σ.get number)) normalize (commit o Term.script redex)

/-- Fire the rule that applies to a term, if one does. -/
def reduceWith (o : Owner) (normalize : Term → Evaluation String Term) (t : Term) :
    Evaluation String Term := do
  match ← lift (matchRedex t) with
  | none => return t
  | some (rule, σ) =>
    pay
    record (.fired rule t)
    applyWith o normalize rule t σ

/-- Normalize a term for an owner, with at most `nesting` calls nested in one another.
An atom is normal. -/
def normalize (o : Owner) : Nat → Term → Evaluation String Term
  | 0, _ => throw .tooDeep
  | nesting + 1, t =>
      if t.isAtom then return t else reduceWith o (normalize o nesting) t

/-- Reduce a term for an owner; an atom is refused. -/
def reduce (o : Owner) (nesting : Nat) (t : Term) : Evaluation String Term :=
  reduceWith o (normalize o nesting) t

/-- Apply a rule by itself: nothing is paid or recorded for it, only for what it leads
to. -/
def apply (o : Owner) (nesting : Nat) (rule : Rule) (redex : Term) (σ : Signature) :
    Evaluation String Term :=
  applyWith o (normalize o nesting) rule redex σ

end Evaluation

namespace Budget

/-- The nesting of an evaluation whose firings cannot be counted beforehand.  Nested calls take
room on the stack of the host, which is finite but not part of this library; the number stands
for that room, and an evaluation that would go deeper ends with `Stop.tooDeep`, an error of
nesting. -/
def unboundedNesting : Nat := 100000

/-- The nested calls that suffice for the steps that are left.  They are known where both
the limit and the count are integers; sums of doubles are rounded, so there the count may
pass the limit later than their difference says, or not at all. -/
def nesting (b : Budget) : Nat :=
  match b.limit.bind Number.toInt?, b.total.toInt? with
  | some limit, some total => (limit - total).toNat + 1
  | _, _ => unboundedNesting

end Budget

end Combinatory
