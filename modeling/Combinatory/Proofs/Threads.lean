import Combinatory.Proofs.Commands
import Combinatory.Proofs.Lockstep

/-!
# Threads that share a guard

Each owner has commits of its own in a guard, and to evaluate for an owner is to read and to
write these only.  An evaluation makes any number of commits, and what one of them is told
decides which calls come after it; so this is said of two runs in step, from guards that are
the same to the owner.

In an interleaving of requests to one guard, therefore, an owner is told what it would be told
if it were alone.

## Main definitions

* `SameFor`: guards in which an owner has committed the same.
* `Request`, `Answer`: what is asked of a guard, and what the owner is told.
* `Session.interleave`: requests of any owners, one after another.

## Main results

* `Evaluation.paired_of_sameFor`: the result of an evaluation depends on its owner's commits
  only.
* `Evaluation.entries_normalize_of_ne`: an evaluation leaves the commits of other owners alone.
* `Session.threads_independent`: threads do not influence each other.
-/

namespace Combinatory

/-! ## Evaluations -/

/-- An owner has committed the same to two guards. -/
def SameFor {α : Type} (o : Owner) (g g' : Guard α) : Prop := g.entries o = g'.entries o

/-- Commits of an owner have the same answer for guards that are the same to it, and leave
them so. -/
theorem SameFor.commit {α : Type} [DecidableEq α] {o : Owner} {g g' : Guard α}
    (h : SameFor o g g') (a : α) :
    (g.commit o a).1 = (g'.commit o a).1 ∧ SameFor o (g.commit o a).2 (g'.commit o a).2 := by
  unfold SameFor at *
  rw [Guard.commit_fst, Guard.commit_fst, Guard.entries_commit, Guard.entries_commit, h]
  exact ⟨rfl, rfl⟩

theorem SameFor.listing_eq {o : Owner} {g g' : Guard String} (h : SameFor o g g') :
    g.listing o = g'.listing o := by
  rw [Guard.listing, h, Guard.listing]

namespace Evaluation

variable {o o' : Owner}

/-- Engines are in step on guards that are the same to the owner. -/
theorem coupling_sameFor (o : Owner) :
    Coupling (Agree (SameFor o)) (fun _ => True) o Term.script Term.script fun _ => True :=
  coupling_of_guards (fun _ _ _ _ => trivial) fun t _ _ _ _ h => h.commit t.script

/-- **An evaluation depends on its owner's commits only**: with guards that are the same to
the owner it has the same outcome, budget and trace, and the guards stay so. -/
theorem paired_of_sameFor {g g' : Guard String} (h : SameFor o g g') (n : Nat) (t : Term)
    (b : Budget) (tr : Array Event) :
    Paired (Agree (SameFor o)) (fun _ => True) (normalize o n t ⟨g, b, tr⟩)
      (normalize o n t ⟨g', b, tr⟩) := by
  rw [normalize_eq]
  exact (coupling_sameFor o).normalizeBy n t trivial _ _ ⟨rfl, rfl, h⟩

/-- Engines for one owner keep what another has committed. -/
theorem coupling_entries_of_ne (h : o' ≠ o) (texts : List String) :
    Coupling (Agree fun g g' => g = g' ∧ g.entries o' = texts) (fun _ => True) o Term.script
      Term.script fun _ => True := by
  refine coupling_of_guards (fun _ _ _ _ => trivial) ?_
  rintro t - - g _ ⟨rfl, hg⟩
  exact ⟨rfl, rfl, (Guard.entries_commit_of_ne g o o' _ h).trans hg⟩

/-- **An evaluation leaves the commits of other owners alone.** -/
theorem entries_normalize_of_ne (h : o' ≠ o) (n : Nat) (t : Term) (s : Run String) :
    (last (normalize o n t s)).guard.entries o' = s.guard.entries o' := by
  have hstep := (coupling_entries_of_ne h (s.guard.entries o')).normalizeBy n t trivial
  rw [normalize_eq]
  exact (hstep s s ⟨rfl, rfl, rfl, rfl⟩).related.guard.2

end Evaluation

open Evaluation

/-! ## Requests -/

/-- What an owner may ask of a guard. -/
inductive Request
  /-- To commit a text. -/
  | commit (text : String)
  /-- To show what it has committed. -/
  | committed
  /-- To normalize what is offered, with a budget for the cap. -/
  | normalize (subject cap : Datum)

/-- What an owner is told. -/
inductive Answer
  /-- Whether the text was new. -/
  | fresh (fresh : Bool)
  | committed (texts : List String)
  | report (report : Report)

/-- What a request comes to on a guard: the answer, or the fault that it is refused for, and
the guard after it. -/
def Request.onGuard (settings : Settings) (o : Owner) (g : Guard String) :
    Request → Except Fault Answer × Guard String
  | commit text => (.ok (.fresh (g.commit o text).1), (g.commit o text).2)
  | committed => (.ok (.committed (g.listing o)), g)
  | normalize (.term t) cap =>
      match Session.newBudget settings cap with
      | .ok b =>
          let result := Evaluation.normalize o b.nesting t ⟨g, b, #[]⟩
          (.ok (.report (.ofRun o result)), (last result).guard)
      | .error f => (.error f, g)
  | normalize subject _ => (.error (.notNormalizable subject), g)

namespace Request

variable (settings : Settings) {o o' : Owner} {g g' : Guard String}

/-- A request is answered alike on guards that are the same to the owner, and leaves them
so. -/
theorem onGuard_of_sameFor (h : SameFor o g g') (request : Request) :
    (request.onGuard settings o g).1 = (request.onGuard settings o g').1 ∧
      SameFor o (request.onGuard settings o g).2 (request.onGuard settings o g').2 := by
  cases request with
  | commit text =>
      obtain ⟨hfresh, hguard⟩ := h.commit text
      exact ⟨by rw [onGuard, onGuard, hfresh], hguard⟩
  | committed => exact ⟨by rw [onGuard, onGuard, h.listing_eq], h⟩
  | normalize subject cap =>
      cases subject with
      | term t =>
          simp only [onGuard]
          cases Session.newBudget settings cap with
          | error f => exact ⟨rfl, h⟩
          | ok b =>
              have hpair := paired_of_sameFor h b.nesting t b #[]
              refine ⟨?_, hpair.related.guard⟩
              dsimp only [Report.ofRun]
              rw [hpair.outcome_eq, hpair.related.trace, hpair.related.budget,
                hpair.related.guard.listing_eq]
      | _ => exact ⟨rfl, h⟩

/-- A request of one owner leaves the commits of another alone. -/
theorem entries_onGuard_of_ne (h : o' ≠ o) (request : Request) :
    (request.onGuard settings o g).2.entries o' = g.entries o' := by
  cases request with
  | commit text => exact Guard.entries_commit_of_ne g o o' text h
  | committed => rfl
  | normalize subject cap =>
      cases subject with
      | term t =>
          simp only [onGuard]
          cases Session.newBudget settings cap with
          | error f => rfl
          | ok b => exact entries_normalize_of_ne h b.nesting t ⟨g, b, #[]⟩
      | _ => rfl

end Request

/-! ## Interleavings -/

namespace Session

/-- Do what an owner asks of a guard of the session. -/
def serve (id : Nat) (o : Owner) : Request → Command Answer
  | .commit text => return .fresh (← commit id o text)
  | .committed => return .committed ((← readGuard id).listing o)
  | .normalize subject cap => return .report (← normalize o subject (some id) .null cap)

/-- The answer to a command, or the fault that it is refused for, and the session after it. -/
def attempt {β : Type} (c : Command β) (S : Session) : Except Fault β × Session :=
  match c S with
  | .ok b S' => (.ok b, S')
  | .error f S' => (.error f, S')

/-- Serve requests to one guard one after another, whoever asks, and also after one of them
was refused; the answers, and the session after all of them. -/
def interleave (id : Nat) :
    List (Owner × Request) → Session → List (Owner × Except Fault Answer) × Session
  | [], S => ([], S)
  | (o, request) :: rest, S =>
      let (answer, S₁) := attempt (serve id o request) S
      let (answers, S₂) := interleave id rest S₁
      ((o, answer) :: answers, S₂)

variable {id : Nat} {o o' : Owner} {S S' : Session}

/-- **A request comes to what it comes to on its guard**, and changes no other guard and no
settings. -/
theorem attempt_serve (id : Nat) (o : Owner) (request : Request) (S : Session) :
    let done := request.onGuard S.settings o (S.guards.get id)
    (attempt (serve id o request) S).1 = done.1 ∧
      (attempt (serve id o request) S).2.settings = S.settings ∧
      (attempt (serve id o request) S).2.guards = S.guards.set id done.2 := by
  cases request with
  | commit text => exact ⟨rfl, rfl, rfl⟩
  | committed => exact ⟨rfl, rfl, (Pool.set_get S.guards id).symm⟩
  | normalize subject cap =>
      cases subject with
      | term t =>
          have hrun := normalize_apply o t (some id) .null cap S
          have hguard : resolveGuard (some id) .null S = .ok id S := rfl
          rw [hguard] at hrun
          dsimp only at hrun
          simp only [Request.onGuard, attempt, serve]
          cases hnew : newBudget S.settings cap with
          | ok b =>
              rw [hnew] at hrun
              rw [bind_of_ok _ hrun]
              exact ⟨rfl, rfl, rfl⟩
          | error f =>
              rw [hnew] at hrun
              rw [bind_of_error _ hrun]
              exact ⟨rfl, rfl, (Pool.set_get S.guards id).symm⟩
      | _ => exact ⟨rfl, rfl, (Pool.set_get S.guards id).symm⟩

/-- Two sessions are alike to an owner that asks one guard only. -/
structure AlikeFor (id : Nat) (o : Owner) (S S' : Session) : Prop where
  settings : S.settings = S'.settings
  cells : S.guards.cells.length = S'.guards.cells.length
  guard : SameFor o (S.guards.get id) (S'.guards.get id)

namespace AlikeFor

/-- Sessions that are alike are so after the guard was changed alike. -/
theorem of_set {T T' : Session} (h : AlikeFor id o S S') {g g' : Guard String}
    (hg : SameFor o g g') (hsettings : T.settings = S.settings)
    (hsettings' : T'.settings = S'.settings) (hguards : T.guards = S.guards.set id g)
    (hguards' : T'.guards = S'.guards.set id g') : AlikeFor id o T T' := by
  refine ⟨by rw [hsettings, hsettings', h.settings], ?_, ?_⟩
  · rw [hguards, hguards']
    simp [Pool.set, h.cells]
  · rw [hguards, hguards']
    by_cases hid : id < S.guards.cells.length
    · rwa [Pool.get_set_self _ _ hid, Pool.get_set_self _ _ (h.cells ▸ hid)]
    · have hid := Nat.le_of_not_lt hid
      rw [Pool.set_of_le _ _ hid, Pool.set_of_le _ _ (h.cells ▸ hid)]
      exact h.guard

/-- **One step of the owner**: the answer is the same in sessions that are alike. -/
theorem attempt_serve (h : AlikeFor id o S S') (request : Request) :
    (attempt (serve id o request) S).1 = (attempt (serve id o request) S').1 ∧
      AlikeFor id o (attempt (serve id o request) S).2 (attempt (serve id o request) S').2 := by
  obtain ⟨hanswer, hsettings, hguards⟩ := Session.attempt_serve id o request S
  obtain ⟨hanswer', hsettings', hguards'⟩ := Session.attempt_serve id o request S'
  rw [← h.settings] at hanswer' hguards'
  obtain ⟨hsame, hguard⟩ := Request.onGuard_of_sameFor S.settings h.guard request
  exact ⟨hanswer.trans (hsame.trans hanswer'.symm),
    h.of_set hguard hsettings hsettings' hguards hguards'⟩

/-- **One step of another owner**: the session stays alike. -/
theorem of_attempt_serve (h : AlikeFor id o S S') (ho : o ≠ o') (request : Request) :
    AlikeFor id o (attempt (serve id o' request) S).2 S' := by
  obtain ⟨-, hsettings, hguards⟩ := Session.attempt_serve id o' request S
  have hguard := (Request.entries_onGuard_of_ne S.settings ho request).trans h.guard
  exact h.of_set hguard hsettings rfl hguards (Pool.set_get S'.guards id).symm

/-- **A series of steps**: the owner is answered as if the steps of others were left out. -/
theorem interleave (h : AlikeFor id o S S') (steps : List (Owner × Request)) :
    let alone := Session.interleave id (steps.filter fun step => step.1 = o) S'
    (Session.interleave id steps S).1.filter (fun answer => answer.1 = o) = alone.1 ∧
      AlikeFor id o (Session.interleave id steps S).2 alone.2 := by
  induction steps generalizing S S' with
  | nil => exact ⟨rfl, h⟩
  | cons step rest ih =>
      obtain ⟨o', request⟩ := step
      by_cases ho : o = o'
      · subst ho
        obtain ⟨hanswer, hafter⟩ := h.attempt_serve request
        obtain ⟨hrest, hlast⟩ := ih hafter
        simp only [decide_true, List.filter_cons_of_pos, Session.interleave]
        exact ⟨by rw [hanswer, hrest], hlast⟩
      · obtain ⟨hrest, hlast⟩ := ih (h.of_attempt_serve ho request)
        have hskip : decide (o' = o) = false := decide_eq_false (Ne.symm ho)
        simp only [Session.interleave, List.filter_cons, hskip, Bool.false_eq_true, if_false]
        exact ⟨hrest, hlast⟩

end AlikeFor

/-- **Threads do not influence each other** through a guard.  In every interleaving of requests
to it, an owner is answered as if no other had asked, and is left with the same commits; for a
request of one owner leaves the commits of every other as they were. -/
theorem threads_independent (id : Nat) (o : Owner) (steps : List (Owner × Request))
    (S : Session) :
    let alone := interleave id (steps.filter fun step => step.1 = o) S
    (interleave id steps S).1.filter (fun answer => answer.1 = o) = alone.1 ∧
      ((interleave id steps S).2.guards.get id).entries o = (alone.2.guards.get id).entries o ∧
      ∀ request o', o' ≠ o →
        ((attempt (serve id o request) S).2.guards.get id).entries o' =
          (S.guards.get id).entries o' := by
  have hself : ∀ o, AlikeFor id o S S := fun _ => ⟨rfl, rfl, rfl⟩
  obtain ⟨hanswers, halike⟩ := (hself o).interleave steps
  exact ⟨hanswers, halike.guard, fun request o' ho =>
    ((hself o').of_attempt_serve ho request).guard⟩

/-- A redex that another thread has committed is new to the main one, which comes to the result
that it has with nothing committed; and the other thread keeps what it has. -/
theorem threads_independent_of_foreign_commit :
    let main : Owner := .thread .main
    let worker : Owner := .thread (.worker "w")
    let t := Term.app (.app (.app .I .K) .S) .I
    let request : Request := .normalize (.term t) (.number (.integer 2))
    let steps := [(worker, .commit t.script), (main, request)]
    let committed := (attempt (serve 0 worker (.commit t.script)) (new .standard)).2
    worker ≠ main ∧
      (∃ report, (interleave 0 steps (new .standard)).1.filter (fun answer => answer.1 = main) =
        [(main, .ok (.report report))] ∧ report.outcome = .ok .S) ∧
      ((attempt (serve 0 main request) committed).2.guards.get 0).entries worker = [t.script] := by
  intro main worker t request steps committed
  have hne : worker ≠ main := by decide
  refine ⟨hne, ⟨_, (threads_independent 0 main steps _).1, rfl⟩, ?_⟩
  exact (threads_independent 0 main steps committed).2.2 request worker hne

end Session

end Combinatory
