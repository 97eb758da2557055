import Combinatory.Evaluation
import Combinatory.Pool
import Combinatory.Settings
import Combinatory.Term.Formation
import Combinatory.Term.Formless

/-!
# Sessions

A session is a series of commands on shared guards, budgets and terms.  It has one
guard for the whole process, which may be replaced, and any number of others; an
evaluation is given a guard, or takes one by its scope.  A command that is refused
leaves behind what it had done up to there.

## Main definitions

* `Session`: settings, guards, budgets, evaluators and stored terms.
* `Command`: what is done in a session, and may be refused.
* `Session.resolveGuard`, `Session.resolveBudget`: the guard and the budget of an
  evaluation.
* `Session.evaluate`: run an evaluation on a guard and a budget of the session.
* `Session.normalize`: normalize an offer from the start, with every check.
* `Report`: what is left of an evaluation.
-/

namespace Combinatory

/-- A guard and a budget of the session, by their cells. -/
structure Evaluator where
  guard : Nat
  budget : Nat
deriving DecidableEq, Repr

/-- What the commands of a session share. -/
structure Session where
  settings : Settings
  guards : Pool (Guard String)
  budgets : Pool Budget
  evaluators : List (String × Evaluator)
  terms : List (String × Term)
  processGuard : Nat

/-- What is done in a session; a refusal keeps the session as it was at that moment. -/
abbrev Command := EStateM Fault Session

/-- What is left of an evaluation: its end, its trace, the budget after it, and what its
owner has now committed to the guard. -/
structure Report where
  outcome : Except Stop Term
  trace : Array Event
  budget : Budget
  committed : List String

namespace Session

/-- A session in which nothing has been done: there is the guard of the process, and
nothing is named. -/
def new (settings : Settings) : Session :=
  { settings := settings
    guards := (Pool.empty.add Guard.empty).2
    budgets := Pool.empty
    evaluators := []
    terms := []
    processGuard := (Pool.empty.add (Guard.empty : Guard String)).1 }

/-- Go on with a result, or refuse the command for its fault. -/
def lift {β : Type} : Except Fault β → Command β
  | .ok b => pure b
  | .error f => throw f

/-- What a name stands for in a list, or a refusal. -/
def lookUp {β : Type} (name : String) (entries : List (String × β)) : Command β :=
  match entries.lookup name with
  | some b => pure b
  | none => throw (.unknownName name)

/-! ## Terms -/

/-- Store a term under a name. -/
def storeTerm (name : String) (t : Term) : Command Unit :=
  modify fun s => { s with terms := assignName name t s.terms }

/-- The term stored under a name. -/
def recallTerm (name : String) : Command Term := do lookUp name (← get).terms

/-! ## Guards -/

/-- The name that stands for the guard of the process, whichever that is. -/
def processName : String := "process"

/-- The name that a guard without a name is shown under. -/
def freshName : String := "fresh"

/-- The guard of a name. -/
def findGuard (name : String) : Command Nat := do
  let s ← get
  if name = processName then return s.processGuard else lookUp name s.guards.names

/-- The name that a guard is shown under: that of the process guard, or the first that
it was given. -/
def guardName (s : Session) (id : Nat) : String :=
  if id = s.processGuard then processName else (s.guards.nameOf? id).getD freshName

/-- A new guard. -/
def addGuard : Command Nat :=
  modifyGet fun s =>
    let (id, guards) := s.guards.add Guard.empty
    (id, { s with guards := guards })

/-- Give a name to a guard. -/
def nameGuard (name : String) (id : Nat) : Command Unit :=
  modify fun s => { s with guards := s.guards.assign name id }

/-- What is in a guard. -/
def readGuard (id : Nat) : Command (Guard String) := return (← get).guards.get id

/-- Commit a text to a guard, and say whether it is new to its owner. -/
def commit (id : Nat) (o : Owner) (text : String) : Command Bool :=
  modifyGet fun s =>
    let (fresh, guard) := (s.guards.get id).commit o text
    (fresh, { s with guards := s.guards.set id guard })

/-- Put a new guard in the place of the guard of the process.  Whoever has the old one
keeps it; a name may be given to it. -/
def replaceProcessGuard (name : Option String) : Command Unit := do
  if let some name := name then
    nameGuard name (← get).processGuard
  let id ← addGuard
  modify fun s => { s with processGuard := id }

/-- The guard of an evaluation: the one that is given, or else the one that the scope
asks for.  A scope that is null is that of the settings. -/
def resolveGuard (given : Option Nat) (scope : Datum) : Command Nat := do
  match given with
  | some id => return id
  | none =>
    let s ← get
    let scope := match scope with
      | .null => .text s.settings.scope
      | other => other
    match ← lift (Scope.ofDatum scope) with
    | .process => return s.processGuard
    | .call => addGuard

/-! ## Budgets -/

/-- The budget of a name. -/
def findBudget (name : String) : Command Nat := do lookUp name (← get).budgets.names

/-- A new budget with the limit that a datum asks for. -/
def addBudget (limit : Datum) : Command Nat := do
  let b ← lift (limit.toLimit >>= Budget.ofLimit)
  modifyGet fun s =>
    let (id, budgets) := s.budgets.add b
    (id, { s with budgets := budgets })

/-- The budget of an evaluation, with the cap that a datum asks for.  A cap that is null
is that of the settings. -/
def resolveBudget (cap : Datum) : Command Nat := do
  let s ← get
  addBudget (match cap, s.settings.cap with
    | .null, some n => .number (.integer n)
    | other, _ => other)

/-- Give a name to a budget. -/
def nameBudget (name : String) (id : Nat) : Command Unit :=
  modify fun s => { s with budgets := s.budgets.assign name id }

/-- The state of a budget. -/
def readBudget (id : Nat) : Command Budget := return (← get).budgets.get id

/-- Take steps from a budget.  They are counted even if the budget does not allow
them. -/
def spend (id : Nat) (steps : Datum) : Command Unit := do
  let b ← readBudget id
  let b := b.spend (← lift (steps.toSteps b.total))
  modify fun s => { s with budgets := s.budgets.set id b }
  lift b.check

/-! ## Evaluations -/

/-- The evaluator of a name. -/
def findEvaluator (name : String) : Command Evaluator := do lookUp name (← get).evaluators

/-- Give a name to an evaluator. -/
def nameEvaluator (name : String) (e : Evaluator) : Command Unit :=
  modify fun s => { s with evaluators := assignName name e s.evaluators }

/-- An evaluator with a new guard, and a new budget with the limit that a datum asks
for. -/
def addEvaluator (limit : Datum) : Command Evaluator := do
  let guard ← addGuard
  return ⟨guard, ← addBudget limit⟩

/-- Run an evaluation for an owner on the guard and the budget of an evaluator, with the
nesting that the budget is given.  Both are kept as the evaluation leaves them, however
it ends. -/
def evaluate (e : Evaluator) (o : Owner) (action : Nat → Evaluation String Term) :
    Command Report :=
  modifyGet fun s =>
    let start : Run String := ⟨s.guards.get e.guard, s.budgets.get e.budget, #[]⟩
    let (outcome, last) : Except Stop Term × Run String :=
      match action start.budget.nesting start with
      | .ok t last => (.ok t, last)
      | .error stop last => (.error stop, last)
    (⟨outcome, last.trace, last.budget, last.guard.listing o⟩,
     { s with guards := s.guards.set e.guard last.guard
              budgets := s.budgets.set e.budget last.budget })

/-- What an evaluation from the start is done with: the guard is found before the
budget is made. -/
def prepare (given : Option Nat) (scope cap : Datum) : Command Evaluator := do
  let guard ← resolveGuard given scope
  return ⟨guard, ← resolveBudget cap⟩

/-- Normalize what a caller offers.  The offer has to be a term before its scope and its
cap are looked at, in this order. -/
def normalize (o : Owner) (subject : Datum) (given : Option Nat) (scope cap : Datum) :
    Command Report := do
  match subject with
  | .term t =>
    let e ← prepare given scope cap
    evaluate e o fun nesting => Evaluation.normalize o nesting t
  | other => throw (.notNormalizable other)

/-- Normalize a formless term: there is nothing to evaluate, but a bad scope or cap of
the settings is refused as for any term. -/
def normalizeFormless (t : Formless) : Command Formless := do
  let _ ← prepare none .null .null
  return t.normalize

end Session

end Combinatory
