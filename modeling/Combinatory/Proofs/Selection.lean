import Combinatory.Proofs.Distribution

/-!
# Selection of the second argument

`S K a b` contracts to `K b (a b)` and that to `b`, so that the branch `a b` is dropped
without a look at it.  Normalization does look at it: the rule for `S` normalizes the branches
of a new redex before it puts them together.  So `S K a b` comes to `b` or to nothing, and
which of the two is settled by the branch alone.  A redex that was committed before is put
together as it is, and always comes to `b`.

A branch that never comes to anything is `seed seed`, where `seed` is `S (S I) (S I)`.  It is
spread to `S I seed (S I seed)`, and that leads back to `seed`, whose argument has grown.

## Main definitions

* `Term.selectSecond`: `S K a b`.
* `Growth.seed`, `Growth.grown`: a term that grows when it is applied to itself, and what it
  grows to.

## Main results

* `returnsFrom_selectSecond_iff`: the results of `S K a b`.
* `Growth.not_halts_grown`: terms that grow for ever, whatever the guard holds.
* `selects_second`: when `S K a b` comes to `b`.
* `not_selects_second_of_growth`: it need not come to anything.
-/

namespace Combinatory

open Relation Term Guard

/-- `S K a b`, which reduces to `b`. -/
def Term.selectSecond (a b : Term) : Term := app (app (app S K) a) b

section

variable {o : Owner} {a b r : Term} {g h : Guard String}

/-- A redex that is in the guard takes the branch for a repeated commit, and the constant
branch gives `b` at once. -/
theorem comes_selectSecond_of_old (hold : (selectSecond a b).script ∈ g.entries o) :
    Comes o (selectSecond a b) g b g :=
  Settles.substitution hold (Settles.constant o g b (app a b))

/-- A new redex comes to `b` when its branch comes to anything. -/
theorem comes_selectSecond_iff_of_new (hnew : (selectSecond a b).script ∉ g.entries o) :
    Comes o (selectSecond a b) g r h ↔
      r = b ∧ ∃ v, Comes o (app a b) (g.commit o (selectSecond a b).script).2 v h := by
  have hred : (selectSecond a b).redex? = some (.substitution, [K, a, b]) := rfl
  have hleft (k : Guard String) : Comes o (app K b) k (app K b) k := .of_redex?_eq_none o k rfl
  have hwhole (v : Term) (k : Guard String) :
      Plan.Comes o (selectSecond a b) (.call (app (app K b) v) .done) k r h ↔ r = b ∧ h = k :=
    (Plan.comes_call_iff_of_comes (Settles.constant o k b v)).trans Plan.comes_done_iff
  -- Of the three calls, the first changes nothing, and the last drops what the branch came to.
  rw [Comes.iff_of_redex?_eq_some hred]
  refine (Plan.comes_commit_new_iff hnew).trans ((Plan.comes_call_iff_of_comes (hleft _)).trans
    (Plan.comes_call_iff.trans ⟨?_, ?_⟩))
  · rintro ⟨v, k, hbranch, hrest⟩
    obtain ⟨rfl, rfl⟩ := (hwhole v k).1 hrest
    exact ⟨rfl, v, hbranch⟩
  · rintro ⟨rfl, v, hbranch⟩
    exact ⟨v, h, hbranch, (hwhole v h).2 ⟨rfl, rfl⟩⟩

/-- **`S K a b` comes to nothing but `b`**, and it does so exactly when it was committed before
or its branch halts after it has been. -/
theorem returnsFrom_selectSecond_iff : ReturnsFrom o g (selectSecond a b) r ↔
    r = b ∧ ((selectSecond a b).script ∈ g.entries o ∨
      Halts o (app a b) (g.commit o (selectSecond a b).script).2) := by
  rw [returnsFrom_iff]
  by_cases hmem : (selectSecond a b).script ∈ g.entries o
  · have hb := comes_selectSecond_of_old hmem
    constructor
    · rintro ⟨h, hc⟩
      exact ⟨(hc.unique hb).1, .inl hmem⟩
    · rintro ⟨rfl, -⟩
      exact ⟨g, hb⟩
  · have hbranch : Halts o (app a b) (g.commit o (selectSecond a b).script).2 ↔
        ∃ h v, Comes o (app a b) (g.commit o (selectSecond a b).script).2 v h :=
      halts_iff_comes.trans exists_comm
    simp only [comes_selectSecond_iff_of_new hmem, hmem, false_or, hbranch, exists_and_left]

end

/-! ## A branch that grows for ever -/

namespace Growth

/-- `S (S I) (S I)`. -/
def seed : Term := app (app S (app S I)) (app S I)

/-- `S I (S I (… seed))`. -/
def grown : Nat → Term
  | 0 => seed
  | n + 1 => app (app S I) (grown n)

section

variable {o : Owner} {a b c d : Term}

/-- No rule applies to what has grown: `S` lacks an argument. -/
theorem redex?_grown (n : Nat) : (grown n).redex? = none := by
  cases n <;> rfl

/-- An `I` with one argument too many calls for the second argument, new or not, if the first
comes to something. -/
theorem exists_calls_last (hc : c.redex? = none) (d : Term) (g : Guard String) :
    ∃ h, Calls o (app (app I c) d, g) (d, h) := by
  have hred : (app (app I c) d).redex? = some (.identityApplied, [c, d]) := rfl
  have first (k : Guard String) : ∃ es, Evaluates o c k es c k := ⟨[], .normal k hc⟩
  by_cases hold : (app (app I c) d).script ∈ g.entries o
  · refine ⟨g, (calls_iff hred).2 ((Plan.asksFor_commit hold).2 ?_)⟩
    exact Plan.asksFor_call.2 (.inr ⟨c, g, first g, Plan.asksFor_call.2 (.inl rfl)⟩)
  · refine ⟨(g.commit o (app (app I c) d).script).2,
      (calls_iff hred).2 (Plan.asksFor_commit_new hold ?_)⟩
    exact Plan.asksFor_call.2 (.inr ⟨c, _, first _, Plan.asksFor_call.2 (.inl rfl)⟩)

/-- `S I b c` leads to `b c`: as a branch if it is new, and as the last argument of `I c (b c)`
if it is not. -/
theorem exists_calls_branch (hc : c.redex? = none) (b : Term) (g : Guard String) :
    ∃ h, TransGen (Calls o) (app (app (app S I) b) c, g) (app b c, h) := by
  by_cases hold : (app (app (app S I) b) c).script ∈ g.entries o
  · obtain ⟨h, hlast⟩ := exists_calls_last (o := o) hc (app b c) g
    exact ⟨h, .head ((calls_substitution_iff hold).2 rfl) (.single hlast)⟩
  · have hred : (app (app (app S I) b) c).redex? = some (.substitution, [I, b, c]) := rfl
    refine ⟨(g.commit o (app (app (app S I) b) c).script).2,
      .single ((calls_iff hred).2 (Plan.asksFor_commit_new hold ?_))⟩
    exact Plan.asksFor_call.2 (.inr ⟨c, _, Settles.identity o _ c,
      Plan.asksFor_call.2 (.inl rfl)⟩)

/-- The seed is spread to a greater term, which is applied to itself. -/
theorem exists_calls_seed (n : Nat) (g : Guard String) :
    ∃ h, Calls o (app seed (grown n), g) (app (grown (n + 1)) (grown (n + 1)), h) := by
  have hred : (app seed (grown n)).redex? =
      some (.substitution, [app S I, app S I, grown n]) := rfl
  have branch (k : Guard String) : ∃ es, Evaluates o (grown (n + 1)) k es (grown (n + 1)) k :=
    ⟨[], .normal k rfl⟩
  by_cases hold : (app seed (grown n)).script ∈ g.entries o
  · exact ⟨g, (calls_substitution_iff hold).2 rfl⟩
  · refine ⟨(g.commit o (app seed (grown n)).script).2,
      (calls_iff hred).2 (Plan.asksFor_commit_new hold ?_)⟩
    refine Plan.asksFor_call.2 (.inr ⟨_, _, branch _, ?_⟩)
    exact Plan.asksFor_call.2 (.inr ⟨_, _, branch _, Plan.asksFor_call.2 (.inl rfl)⟩)

/-- **What has grown leads on to what has grown**, whatever the guard holds: to less of it on
the left, down to the seed, and from there to more of it. -/
theorem exists_calls_grown (m n : Nat) (g : Guard String) :
    ∃ m' n' h, TransGen (Calls o) (app (grown m) (grown n), g)
      (app (grown m') (grown n'), h) := by
  cases m with
  | zero =>
      obtain ⟨h, hspread⟩ := exists_calls_seed (o := o) n g
      exact ⟨n + 1, n + 1, h, .single hspread⟩
  | succ m =>
      obtain ⟨h, hbranch⟩ := exists_calls_branch (o := o) (redex?_grown n) (grown m) g
      exact ⟨m, n, h, hbranch⟩

end

/-- **What has grown grows for ever**, whatever the guard holds. -/
theorem not_halts_grown (o : Owner) (m n : Nat) (g : Guard String) :
    ¬ Halts o (app (grown m) (grown n)) g := by
  refine not_halts_of_progress (P := fun x => ∃ m n, x.1 = app (grown m) (grown n)) ?_ ⟨m, n, rfl⟩
  rintro ⟨t, k⟩ ⟨m, n, rfl⟩
  obtain ⟨m', n', h, hcalls⟩ := exists_calls_grown (o := o) m n k
  exact ⟨_, hcalls, m', n', rfl⟩

end Growth

/-! ## The law of selection -/

/-- **`S K a b` selects `b`, as far as its branch allows.**  It returns nothing but `b`, with
whatever guard.  It returns if it was committed before, and otherwise exactly when the branch
`a b`, which is normalized before it is dropped, halts; so it does whenever there is no
infinite reduction of the branch. -/
theorem selects_second (o : Owner) (g : Guard String) (a b : Term) :
    let t := selectSecond a b
    (∀ r, ReturnsFrom o g t r ↔
      r = b ∧ (t.script ∈ g.entries o ∨ Halts o (app a b) (g.commit o t.script).2)) ∧
    ((app a b).Terminates → ReturnsFrom o g t b) := by
  intro t
  refine ⟨fun r => returnsFrom_selectSecond_iff, fun hterm => ?_⟩
  have hhalts : Halts o (app a b) (g.commit o t.script).2 :=
    halts_iff_acc.2 (acc_calls_of_acc_descends hterm.acc_descends _)
  exact returnsFrom_selectSecond_iff.2 ⟨rfl, .inr hhalts⟩

/-- A branch that terminates, and one that grows for ever, with the redex in the guard. -/
theorem selects_second_of_committed :
    let x := var ⟨"x", rfl⟩
    let t := selectSecond Growth.seed Growth.seed
    let g := (Guard.empty.commit (.thread .main) t.script).2
    (app K x).Terminates ∧ ReturnsFrom (.thread .main) .empty (selectSecond K x) x ∧
      t.script ∈ g.entries (.thread .main) ∧
      ¬ Halts (.thread .main) (app Growth.seed Growth.seed) g ∧
      ReturnsFrom (.thread .main) g t Growth.seed := by
  intro x t g
  have hterm : (app K x).Terminates := terminates_of_not_subterm_S (by simp [x])
  have hmem : t.script ∈ g.entries (.thread .main) :=
    (Guard.mem_entries_commit .empty (.thread .main) _ _).2 (.inl rfl)
  obtain ⟨-, hreturns⟩ := selects_second (.thread .main) .empty K x
  obtain ⟨hresults, -⟩ := selects_second (.thread .main) g Growth.seed Growth.seed
  exact ⟨hterm, hreturns hterm, hmem, Growth.not_halts_grown _ 0 0 g,
    (hresults _).2 ⟨rfl, .inl hmem⟩⟩

/-- **Not every `S K a b` comes to `b`**: with `S (S I) (S I)` for both, its branch grows for
ever. -/
theorem not_selects_second_of_growth :
    ¬ ∀ a b, ReturnsFrom (.thread .main) .empty (selectSecond a b) b := by
  intro h
  obtain ⟨-, hmem | hhalts⟩ := returnsFrom_selectSecond_iff.1 (h Growth.seed Growth.seed)
  · exact List.not_mem_nil hmem
  · exact Growth.not_halts_grown _ 0 0 _ hhalts

end Combinatory
