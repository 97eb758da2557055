import Combinatory.Proofs.Commands
import Combinatory.Proofs.Limits
import Combinatory.Proofs.Lockstep

/-!
# What can go wrong in a normalization

A normalization in a session is refused for three causes only, which are looked for in this
order: what is offered is not a term, no guard is given and the scope is not one of the two,
the limit is negative.  A refusal changes no guard.  Once the evaluation has begun, nothing is
refused any more, but the limit may be passed: rules are looked up and applied without a fault
at every redex, so whatever else the text of a fault is there for cannot happen.

An evaluation without a limit may use up the nested calls that it is given.  This is not an
error of the evaluation, which would go on with more of them.

## Main definitions

* `Refusal`: the causes of a refusal, with their order.
* `Session.KeepsGuards`: no guard has changed.

## Main results

* `Evaluation.stop_of_normalize`: evaluations stop for their own limit or for their nesting.
* `Session.normalize_shape`: a normalization is refused for its cause, or runs.
* `Session.error_contract`: the errors of a normalization.
-/

namespace Combinatory

/-! ## Evaluations -/

namespace Evaluation

/-- The stop is for nested calls that are used up, or for the limit. -/
def StopsFor (limit : Option Number) (e : Stop) : Prop :=
  e = .tooDeep ∨ ∃ total l, limit = some l ∧ e = .fault (.limitExceeded total l)

/-- Runs keep their limit, and stop for it or for their nesting. -/
theorem coupling_limit (o : Owner) (limit : Option Number) :
    Coupling (fun s s' => s = s' ∧ s.budget.limit = limit) (StopsFor limit) o Term.script
      Term.script fun _ => True where
  down _ _ _ _ := trivial
  deep := .inl rfl
  pay := by
    refine inStep_self_iff.2 fun s hs => ⟨by rw [last_pay]; exact hs, fun e s' h => ?_⟩
    rw [pay_apply] at h
    cases hcheck : (s.budget.spend .one).check with
    | ok _ =>
        rw [hcheck] at h
        cases h
    | error f =>
        rw [hcheck] at h
        cases h
        obtain ⟨l, hl, -, rfl⟩ := Budget.check_eq_error_iff.1 hcheck
        exact .inr ⟨_, l, hs.symm.trans hl, rfl⟩
  record e := inStep_self_iff.2 fun s hs => ⟨hs, fun _ _ h => nomatch h⟩
  commit t _ _ := by
    refine inStep_self_iff.2 fun s hs => ⟨?_, fun e s' h => absurd h (commit_ne_error o _ t s e s')⟩
    rw [commit_apply]
    exact hs

/-- **An evaluation stops for its own limit or for its nesting** and for nothing else, however
deep it is nested and whatever its guard holds. -/
theorem stop_of_normalize {o : Owner} {n : Nat} {t : Term} {s s' : Run String} {e : Stop}
    (h : normalize o n t s = .error e s') : StopsFor s.budget.limit e := by
  rw [normalize_eq] at h
  have hstep := (coupling_limit o s.budget.limit).normalizeBy n t trivial
  exact (inStep_self_iff.1 hstep s rfl).2 e s' h

/-- A run with a new budget, and the nesting for it, stops by its limit; without a limit it
stops for its nesting only. -/
theorem stop_of_counted {o : Owner} {t : Term} {g : Guard String} {L : Option Nat} {e : Stop}
    (h : outcome (normalize o (Budget.counted L 0).nesting t ⟨g, .counted L 0, #[]⟩) =
      .error e) :
    match L with
    | some L => e = .exceeds L
    | none => e = .tooDeep := by
  obtain ⟨s, hrun⟩ := outcome_eq_error.1 h
  cases L with
  | none =>
      rcases stop_of_normalize hrun with rfl | ⟨-, l, hl, -⟩
      · rfl
      · cases hl
  | some L =>
      have hnesting : L < (Budget.counted (some L) 0).nesting := by
        simp [Budget.nesting, Budget.counted, Number.toInt?]
      have hend := endsBy_normalizeBy o t g hnesting
      rw [← normalize_eq, hrun] at hend
      cases hend with
      | exceeds => rfl

end Evaluation

/-! ## Causes -/

/-- The offer of a text that may be left out. -/
def Datum.optionalText : Option String → Datum
  | none => .null
  | some s => .text s

/-- The offer of an integer that may be left out. -/
def Datum.optionalInteger : Option Int → Datum
  | none => .null
  | some n => .number (.integer n)

/-- The limit for a cap: the cap, or else that of the settings, if there is one. -/
def Settings.limitFor (settings : Settings) (cap : Option Int) : Option Int :=
  cap <|> settings.cap.map Nat.cast

/-- The scope of settings that were read is the text given for it, or that for single calls. -/
theorem Settings.scope_of_read {settings : Settings} {scope cap : Option String}
    (h : read scope cap = .ok settings) : settings.scope = scope.getD Scope.call.name := by
  rw [read] at h
  cases hcap : readCap (cap.getD "") with
  | ok n =>
      rw [hcap] at h
      cases h
      rfl
  | error f =>
      rw [hcap] at h
      cases h

/-- A budget has the limit that it was made with. -/
theorem Budget.limit_of_ofLimit {limit : Option Number} {b : Budget} (h : ofLimit limit = .ok b) :
    b.limit = limit := by
  rw [eq_of_ofLimit h]

/-- There is a guard for an evaluation: one is given, or the scope of this name has one. -/
def FindsGuard (given : Option Nat) (scope : String) : Prop :=
  given ≠ none ∨ ∃ s : Scope, scope = s.name

/-- The causes for which a normalization is refused: of an offer, with a guard or with the name
of a scope, and with a limit or without one. -/
inductive Refusal (subject : Datum) (given : Option Nat) (scope : String) (limit : Option Int) :
    Fault → Prop
  /-- What is offered is not a term. -/
  | subject (hsubject : ∀ t, subject ≠ .term t) :
      Refusal subject given scope limit (.notNormalizable subject)
  /-- No guard is given, and there is no such scope. -/
  | scope {t : Term} (ht : subject = .term t) (hguard : ¬ FindsGuard given scope) :
      Refusal subject given scope limit (.unknownScope (.text scope))
  /-- There is a guard, but the limit is negative. -/
  | limit {t : Term} (ht : subject = .term t) (hguard : FindsGuard given scope) {l : Int}
      (hl : limit = some l) (hneg : l < 0) :
      Refusal subject given scope limit (.negativeLimit (.integer l))

/-- The order of the causes makes them exclude each other. -/
theorem Refusal.unique {subject : Datum} {given : Option Nat} {scope : String}
    {limit : Option Int} {f f' : Fault} (h : Refusal subject given scope limit f)
    (h' : Refusal subject given scope limit f') : f = f' := by
  cases h with
  | subject hsubject =>
      cases h' with
      | subject => rfl
      | scope ht => exact absurd ht (hsubject _)
      | limit ht => exact absurd ht (hsubject _)
  | scope ht hguard =>
      cases h' with
      | subject hsubject => exact absurd ht (hsubject _)
      | scope => rfl
      | limit _ hguard' => exact absurd hguard' hguard
  | limit ht hguard hl =>
      cases h' with
      | subject hsubject => exact absurd ht (hsubject _)
      | scope _ hguard' => exact absurd hguard hguard'
      | limit _ _ hl' =>
          rw [hl] at hl'
          cases hl'
          rfl

/-- What is no term is an error of type, and the other causes are errors of value. -/
theorem Refusal.kind_eq (subject : Datum) {given : Option Nat} {scope : String}
    {limit : Option Int} {f : Fault} : Refusal subject given scope limit f →
      f.kind = match subject with
        | .term _ => .value
        | _ => .type := by
  intro h
  cases h with
  | subject hsubject =>
      cases subject with
      | term t => exact absurd rfl (hsubject t)
      | _ => rfl
  | scope ht =>
      rw [ht]
      rfl
  | limit ht =>
      rw [ht]
      exact Fault.kind_negativeLimit _

/-! ## Commands -/

namespace Session

/-- No guard has changed, and the process has the same one; there may be new guards. -/
structure KeepsGuards (S S' : Session) : Prop where
  guard : ∀ id, S'.guards.get id = S.guards.get id
  names : S'.guards.names = S.guards.names
  process : S'.processGuard = S.processGuard

theorem KeepsGuards.refl (S : Session) : S.KeepsGuards S := ⟨fun _ => rfl, rfl, rfl⟩

/-- A new guard leaves the others as they are. -/
theorem keepsGuards_add (S : Session) :
    S.KeepsGuards { S with guards := (S.guards.add .empty).2 } where
  guard := S.guards.get_add_default
  names := rfl
  process := rfl

/-- A guard is found where there is one, and no other is changed by this; or the scope is
refused. -/
theorem resolveGuard_shape (given : Option Nat) (scope : Option String) (S : Session) :
    let name := scope.getD S.settings.scope
    (FindsGuard given name ∧ ∃ id S₁, resolveGuard given (.optionalText scope) S = .ok id S₁ ∧
        S₁.settings = S.settings ∧ S.KeepsGuards S₁) ∨
      (¬ FindsGuard given name ∧
        resolveGuard given (.optionalText scope) S = .error (.unknownScope (.text name)) S) := by
  intro name
  cases given with
  | some id => exact .inl ⟨.inl nofun, id, S, rfl, rfl, .refl S⟩
  | none =>
      have hscope : resolveGuard none (.optionalText scope) S =
          resolveGuard none (.text name) S := by
        cases scope <;> rfl
      rw [hscope]
      cases hfound : Scope.ofName? name with
      | none =>
          have hdatum : Scope.ofDatum (.text name) = .error (.unknownScope (.text name)) := by
            simp [Scope.ofDatum, Datum.letters?, hfound]
          refine .inr ⟨?_, ?_⟩
          · rintro (hgiven | ⟨s, hs⟩)
            · exact hgiven rfl
            · rw [hs, Scope.ofName?_name] at hfound
              cases hfound
          · simp only [resolveGuard, hdatum]
            rfl
      | some found =>
          have hdatum : Scope.ofDatum (.text name) = .ok found := by
            simp [Scope.ofDatum, Datum.letters?, hfound]
          refine .inl ⟨.inr ⟨found, Scope.ofName?_eq_some_iff.1 hfound⟩, ?_⟩
          simp only [resolveGuard, hdatum]
          cases found with
          | process => exact ⟨_, S, rfl, rfl, .refl S⟩
          | call => exact ⟨_, _, rfl, rfl, keepsGuards_add S⟩

/-- The budget for a cap is without a limit or has one that is not negative; or it is
refused. -/
theorem newBudget_shape (settings : Settings) (cap : Option Int) :
    (∃ L : Option Nat, settings.limitFor cap = L.map Nat.cast ∧
        newBudget settings (.optionalInteger cap) = .ok (.counted L 0)) ∨
      ∃ l, settings.limitFor cap = some l ∧ l < 0 ∧
        newBudget settings (.optionalInteger cap) = .error (.negativeLimit (.integer l)) := by
  have h : newBudget settings (.optionalInteger cap) =
      Budget.ofLimit ((settings.limitFor cap).map .integer) := by
    cases cap with
    | some l => rfl
    | none =>
        simp only [newBudget, Settings.limitFor]
        cases settings.cap <;> rfl
  rw [h]
  cases settings.limitFor cap with
  | none => exact .inl ⟨none, rfl, rfl⟩
  | some l =>
      rcases lt_or_ge l 0 with hneg | hpos
      · refine .inr ⟨l, rfl, hneg, ?_⟩
        simp [Budget.ofLimit, Number.zero, hneg]
      · obtain ⟨L, rfl⟩ := Int.eq_ofNat_of_zero_le hpos
        exact .inl ⟨some L, rfl, Budget.ofLimit_natCast L⟩

/-- A normalization is refused, for its cause and with no guard changed; or there is no cause,
and it runs with a new budget. -/
theorem normalize_shape (o : Owner) (subject : Datum) (given : Option Nat)
    (scope : Option String) (cap : Option Int) (S : Session) :
    let result := normalize o subject given (.optionalText scope) (.optionalInteger cap) S
    let refusal :=
      Refusal subject given (scope.getD S.settings.scope) (S.settings.limitFor cap)
    (∃ f S', result = .error f S' ∧ refusal f ∧ S.KeepsGuards S') ∨
      ((∀ f, ¬ refusal f) ∧ ∃ t g S', ∃ L : Option Nat,
        S.settings.limitFor cap = L.map Nat.cast ∧
        let b := Budget.counted L 0
        result = .ok (.ofRun o (Evaluation.normalize o b.nesting t ⟨g, b, #[]⟩)) S') := by
  intro result refusal
  by_cases hsubject : ∀ t, subject ≠ .term t
  · have hresult : result = .error (.notNormalizable subject) S := by
      cases subject with
      | term t => exact absurd rfl (hsubject t)
      | _ => rfl
    exact .inl ⟨_, S, hresult, .subject hsubject, .refl S⟩
  obtain ⟨t, ht⟩ : ∃ t, subject = .term t := by simpa using hsubject
  have hresult : result =
      normalize o (.term t) given (.optionalText scope) (.optionalInteger cap) S := by
    rw [← ht]
  rw [normalize_apply] at hresult
  rcases resolveGuard_shape given scope S with
    ⟨hguard, id, S₁, hfound, hsettings, hkeeps⟩ | ⟨hguard, hrefused⟩
  · rw [hfound] at hresult
    dsimp only at hresult
    rw [hsettings] at hresult
    rcases newBudget_shape S.settings cap with ⟨L, hlimit, hbudget⟩ | ⟨l, hlimit, hneg, hbudget⟩
    · rw [hbudget] at hresult
      refine .inr ⟨?_, t, S₁.guards.get id, _, L, hlimit, hresult⟩
      rintro f (hsubject' | ⟨-, hguard'⟩ | ⟨-, -, hl, hneg⟩)
      · exact hsubject hsubject'
      · exact hguard' hguard
      · rw [hlimit] at hl
        obtain ⟨n, -, rfl⟩ := Option.map_eq_some_iff.1 hl
        omega
    · rw [hbudget] at hresult
      exact .inl ⟨_, S₁, hresult, .limit ht hguard hlimit hneg, hkeeps⟩
  · rw [hrefused] at hresult
    exact .inl ⟨_, S, hresult, .scope ht hguard, .refl S⟩

/-- **The errors of a normalization**, with settings that were read from texts.  It is refused
exactly for the causes of `Refusal`; a refusal changes no guard, and is an error of type if what
was offered is not a term, and one of value otherwise.  If it is not refused, its only error is
that it fires more rules than its limit allows, which is reported as such as long as their count
can be written; without a limit it has none, but may need more nested calls than it is given.
The same holds of the evaluation by itself, whatever guard and however many nested calls it
has. -/
theorem error_contract (o : Owner) (subject : Datum) (given : Option Nat) (scope : Option String)
    (cap : Option Int) (S : Session) (scopeText capText : Option String)
    (hread : Settings.read scopeText capText = .ok S.settings) :
    let result := normalize o subject given (.optionalText scope) (.optionalInteger cap) S
    let name := (scope <|> scopeText).getD Scope.call.name
    let limit := S.settings.limitFor cap
    (∀ f, (∃ S', result = .error f S') ↔ Refusal subject given name limit f) ∧
      (∀ f S', result = .error f S' → S.KeepsGuards S' ∧
        f.kind = match subject with
          | .term _ => .value
          | _ => .type) ∧
      (∀ report S' e, result = .ok report S' → report.outcome = .error e →
        match limit with
        | some l =>
            e = .exceeds l.toNat ∧ (l.toNat + 1 < Text.numeralBound → e.kind = .limit)
        | none => e = .tooDeep) ∧
      ∀ t b n g e s, Budget.ofLimit (limit.map .integer) = .ok b →
        Evaluation.normalize o n t ⟨g, b, #[]⟩ = .error e s →
        Evaluation.StopsFor (limit.map .integer) e := by
  intro result name limit
  have hname : scope.getD S.settings.scope = name := by
    rw [Settings.scope_of_read hread]
    cases scope <;> rfl
  have hstops : ∀ t b n g e s, Budget.ofLimit (limit.map .integer) = .ok b →
      Evaluation.normalize o n t ⟨g, b, #[]⟩ = .error e s →
      Evaluation.StopsFor (limit.map .integer) e := by
    intro t b n g e s hb hrun
    rw [← Budget.limit_of_ofLimit hb]
    exact Evaluation.stop_of_normalize hrun
  have hshape := normalize_shape o subject given scope cap S
  rw [hname] at hshape
  rcases hshape with ⟨f₀, S₀, hresult, hrefusal, hkeeps⟩ | ⟨hnone, t, g, S₀, L, hlimit, hresult⟩
  · change result = .error f₀ S₀ at hresult
    clear_value result
    subst hresult
    refine ⟨fun f => ⟨?_, fun h => ⟨S₀, by rw [h.unique hrefusal]⟩⟩, ?_,
      (fun _ _ _ h => nomatch h), hstops⟩
    · rintro ⟨S', h⟩
      cases h
      exact hrefusal
    · intro f S' h
      cases h
      exact ⟨hkeeps, hrefusal.kind_eq subject⟩
  · change result = .ok _ S₀ at hresult
    clear_value result
    subst hresult
    refine ⟨fun f => ⟨(fun ⟨_, h⟩ => nomatch h), fun h => absurd h (hnone f)⟩,
      (fun _ _ h => nomatch h), ?_, hstops⟩
    intro report S' e h he
    cases h
    have hstop := Evaluation.stop_of_counted he
    simp only [limit, hlimit]
    cases L with
    | none => exact hstop
    | some L =>
        obtain rfl : e = .exceeds L := hstop
        exact ⟨rfl, fun hL => (Stop.kind_exceeds L).trans (if_pos hL)⟩

/-- All three causes at once, then two of them, then one: each time the first is the one, with
the kind of error that it is. -/
theorem error_contract_of_several :
    let main : Owner := .thread .main
    let S := new ⟨"nowhere", some 2⟩
    let negative : Datum := .optionalInteger (some (-1))
    Settings.read (some "nowhere") (some " 2 ") = .ok S.settings ∧
      (∃ f S', normalize main .null none (.optionalText none) negative S = .error f S' ∧
        f = .notNormalizable .null ∧ f.kind = .type) ∧
      (∃ f S', normalize main (.term .K) none (.optionalText none) negative S = .error f S' ∧
        f = .unknownScope (.text "nowhere") ∧ f.kind = .value) ∧
      (∃ f S', normalize main (.term .K) none (.optionalText (some "call")) negative S =
        .error f S' ∧ f = .negativeLimit (.integer (-1)) ∧ f.kind = .value ∧
        S.KeepsGuards S') := by
  intro main S negative
  have hread : Settings.read (some "nowhere") (some " 2 ") = .ok S.settings := by rfl
  have hunknown : ¬ FindsGuard none "nowhere" := by
    rintro (hgiven | ⟨s, hs⟩)
    · exact hgiven rfl
    · cases s <;> exact absurd hs (by decide)
  have hcall : FindsGuard none "call" := .inr ⟨.call, rfl⟩
  obtain ⟨hsubject, hsubjectKind, -⟩ :=
    error_contract main .null none none (some (-1)) S _ _ hread
  obtain ⟨hscope, hscopeKind, -⟩ :=
    error_contract main (.term .K) none none (some (-1)) S _ _ hread
  obtain ⟨hlimit, hlimitKind, -⟩ :=
    error_contract main (.term .K) none (some "call") (some (-1)) S _ _ hread
  obtain ⟨S₁, h₁⟩ := (hsubject _).2 (.subject nofun)
  obtain ⟨S₂, h₂⟩ := (hscope _).2 (.scope rfl hunknown)
  obtain ⟨S₃, h₃⟩ := (hlimit _).2 (.limit rfl hcall rfl (by decide))
  obtain ⟨hkeeps, hvalue⟩ := hlimitKind _ S₃ h₃
  exact ⟨hread, ⟨_, S₁, h₁, rfl, (hsubjectKind _ S₁ h₁).2⟩,
    ⟨_, S₂, h₂, rfl, (hscopeKind _ S₂ h₂).2⟩, _, S₃, h₃, rfl, hvalue, hkeeps⟩

end Session

end Combinatory
