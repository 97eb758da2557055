import Combinatory.Proofs.Distribution
import Combinatory.Proofs.LoopBreaking

/-!
# Chains of identities

`I` with any number of further `I`s behind it reduces to `I`.  Normalization takes a longer
chain apart, and what it calls on the way are chains again: the chain without its last three
arguments first, and then what has come of that with two arguments, with three, and so on.  So
the same short chains are met several times in one run, and since they are in the guard by
then, they are put together and not contracted.  Little is left over: with a guard that is
empty at first, a chain comes to `I`, to `I I` or to `I I I`.

Since everything that is committed on the way is a chain, a guard can be told by the lengths of
the chains in it, and a run by two numbers and two lists.

## Main definitions

* `Term.chain`: `I` with further `I`s behind it.
* `Guard.ofChains`: the guard with the chains of some lengths.
* `Shortens`: a chain comes to a chain.
* `Chain.trail`: what a chain comes to, and the chains that are in the guard then, by recursion
  on its length.
* `Chain.Resumes`: how a longer chain goes on after its head, case by case.
* `Chain.remnant`: what a chain comes to, in closed form.

## Main results

* `shortens_trail`: the recursion tells what chains come to.
* `Chain.trail_fst`: the recursion has the closed form for its solution.
* `identity_chains`: what the results of chains are.
* `not_collapses_of_five`: a chain that does not come to `I`.
-/

namespace Combinatory

open Term Guard

namespace Term

/-- `I` with a number of further `I`s behind it. -/
def chain : Nat → Term
  | 0 => I
  | n + 1 => app (chain n) I

theorem size_chain (n : Nat) : (chain n).size = 2 * n + 1 := by
  induction n with
  | zero => rfl
  | succ n ih =>
      simp only [chain, size, ih]
      omega

/-- Chains of different lengths are different. -/
theorem chain_injective : Function.Injective chain := by
  intro m n h
  have hsize := congrArg size h
  rw [size_chain, size_chain] at hsize
  omega

end Term

/-- The guard to which the chains of some lengths have been committed, the last first. -/
def Guard.ofChains (o : Owner) (C : List Nat) : Guard String := ofTerms o (C.map chain)

/-- The guard holds the chains of these lengths and no others. -/
theorem Guard.chain_mem_ofChains_iff {o : Owner} {C : List Nat} {n : Nat} :
    (chain n).script ∈ (ofChains o C).entries o ↔ n ∈ C := by
  rw [ofChains, script_mem_ofTerms_iff, List.mem_map_of_injective chain_injective]

namespace Plan

variable {o : Owner} {n : Nat} {C : List Nat} {next : Bool → Plan Term} {r : Term}
  {h : Guard String}

/-- A chain of a new length takes the branch for a new commit, and the guard has the length
then. -/
theorem comes_commit_chain_new (hnew : n ∉ C)
    (hrest : Comes o (chain n) (next true) (ofChains o (n :: C)) r h) :
    Comes o (chain n) (.commit next) (ofChains o C) r h :=
  comes_commit_new (chain_mem_ofChains_iff.not.2 hnew) hrest

/-- A chain of a length that the guard has takes the branch for a repeated commit. -/
theorem comes_commit_chain_old (hold : n ∈ C)
    (hrest : Comes o (chain n) (next false) (ofChains o C) r h) :
    Comes o (chain n) (.commit next) (ofChains o C) r h :=
  comes_commit_old (chain_mem_ofChains_iff.2 hold) hrest

end Plan

/-! ## The calls of chains -/

/-- `Shortens o n C k D` says that a chain of `n` comes to a chain of `k`, from a guard with the
chains of `C` to a guard with the chains of `D`. -/
def Shortens (o : Owner) (n : Nat) (C : List Nat) (k : Nat) (D : List Nat) : Prop :=
  Comes o (chain n) (ofChains o C) (chain k) (ofChains o D)

namespace Shortens

variable {o : Owner} {n k j r : Nat} {C D E F : List Nat}

theorem zero : Shortens o 0 C 0 C := .of_redex?_eq_none o _ rfl

theorem one : Shortens o 1 C 0 C := Settles.identity o _ I

theorem two_new (h : 2 ∉ C) : Shortens o 2 C 0 (2 :: C) :=
  .of_redex?_eq_some rfl (Plan.comes_commit_chain_new h
    (Plan.comes_call zero (Plan.comes_call zero (Plan.comes_call one
      (Plan.comes_done o _ _ _)))))

theorem two_old (h : 2 ∈ C) : Shortens o 2 C 1 C :=
  .of_redex?_eq_some rfl (Plan.comes_commit_chain_old h
    (Plan.comes_call zero (Plan.comes_call zero (Plan.comes_done o _ _ _))))

theorem three_new (h : 3 ∉ C) : Shortens o 3 C 0 (3 :: C) :=
  .of_redex?_eq_some rfl (Plan.comes_commit_chain_new h
    (Plan.comes_call zero (Plan.comes_call zero (Plan.comes_call one
      (Plan.comes_call zero (Plan.comes_call one (Plan.comes_done o _ _ _)))))))

theorem three_old (h : 3 ∈ C) : Shortens o 3 C 2 C :=
  .of_redex?_eq_some rfl (Plan.comes_commit_chain_old h
    (Plan.comes_call zero (Plan.comes_done o _ _ _)))

/-- A longer chain that is new: after its head, the rest is called with what has come of it. -/
theorem spine_new (head : Shortens o (n + 1) C k D) (h : n + 4 ∉ D)
    (inner : Shortens o (k + 2) ((n + 4) :: D) j E) (whole : Shortens o (j + 1) E r F) :
    Shortens o (n + 4) C r F :=
  .of_redex?_eq_some rfl (Plan.comes_call head (Plan.comes_commit_chain_new h
    (Plan.comes_call inner (Plan.comes_call whole (Plan.comes_done o _ _ _)))))

/-- A longer chain that was committed before is put together without its last call. -/
theorem spine_old (head : Shortens o (n + 1) C k D) (h : n + 4 ∈ D)
    (inner : Shortens o (k + 2) D j E) : Shortens o (n + 4) C (j + 1) E :=
  .of_redex?_eq_some rfl (Plan.comes_call head (Plan.comes_commit_chain_old h
    (Plan.comes_call inner (Plan.comes_call zero (Plan.comes_done o _ _ _)))))

end Shortens

/-! ## The course of a chain -/

namespace Chain

/-- What a longer chain comes to, and the lengths that are in the guard then, once its head has
come to a chain of the first number and the chain itself is in the guard. -/
def resume : Nat → List Nat → Nat × List Nat
  | 0, C => if 2 ∈ C then (1, C) else (0, 2 :: C)
  | 1, C => if 3 ∈ C then (2, C) else (0, 3 :: C)
  | _, C => if 4 ∈ C then (2, C) else (1, 4 :: C)

/-- What a chain comes to, and the lengths that are in the guard then, where the guard is empty
at first. -/
def trail : Nat → Nat × List Nat
  | 0 => (0, [])
  | 1 => (0, [])
  | 2 => (0, [2])
  | 3 => (0, [3])
  | n + 4 => resume (trail (n + 1)).1 ((n + 4) :: (trail (n + 1)).2)

/-- Where something is left over, it is because shorter chains are in the guard. -/
structure Explained (k : Nat) (C : List Nat) : Prop where
  le_two : k ≤ 2
  two_mem : 1 ≤ k → 2 ∈ C
  three_mem : 2 ≤ k → 3 ∈ C

/-- `Resumes C k r D` says how a longer chain goes on, with a guard with the chains of `C`, once
its head has come to a chain of `k`: it comes to a chain of `r`, and the guard has the chains of
`D` then. -/
inductive Resumes (C : List Nat) : Nat → Nat → List Nat → Prop
  | two_new (htwo : 2 ∉ C) : Resumes C 0 0 (2 :: C)
  | two_old (htwo : 2 ∈ C) : Resumes C 0 1 C
  | three_new (hthree : 3 ∉ C) : Resumes C 1 0 (3 :: C)
  | three_old (htwo : 2 ∈ C) (hthree : 3 ∈ C) : Resumes C 1 2 C
  | four_new (htwo : 2 ∈ C) (hfour : 4 ∉ C) : Resumes C 2 1 (4 :: C)
  | four_old (htwo : 2 ∈ C) (hthree : 3 ∈ C) (hfour : 4 ∈ C) : Resumes C 2 2 C

section

variable {k r m : Nat} {C D : List Nat}

theorem Explained.mono (h : Explained k C) (hsub : C ⊆ D) : Explained k D :=
  ⟨h.le_two, fun hk => hsub (h.two_mem hk), fun hk => hsub (h.three_mem hk)⟩

/-- A longer chain goes on as the recursion says. -/
theorem Explained.resumes (h : Explained k C) : Resumes C k (resume k C).1 (resume k C).2 := by
  obtain ⟨hk, htwo, hthree⟩ := h
  match k with
  | 0 =>
      by_cases hmem : 2 ∈ C
      · have hcase : resume 0 C = (1, C) := if_pos hmem
        rw [hcase]
        exact .two_old hmem
      · have hcase : resume 0 C = (0, 2 :: C) := if_neg hmem
        rw [hcase]
        exact .two_new hmem
  | 1 =>
      by_cases hmem : 3 ∈ C
      · have hcase : resume 1 C = (2, C) := if_pos hmem
        rw [hcase]
        exact .three_old (htwo (by omega)) hmem
      · have hcase : resume 1 C = (0, 3 :: C) := if_neg hmem
        rw [hcase]
        exact .three_new hmem
  | 2 =>
      by_cases hmem : 4 ∈ C
      · have hcase : resume 2 C = (2, C) := if_pos hmem
        rw [hcase]
        exact .four_old (htwo (by omega)) (hthree (by omega)) hmem
      · have hcase : resume 2 C = (1, 4 :: C) := if_neg hmem
        rw [hcase]
        exact .four_new (htwo (by omega)) hmem

/-- What is left over then is explained again. -/
theorem Resumes.explained (h : Resumes C k r D) : Explained r D := by
  cases h with
  | two_old htwo => exact ⟨by omega, fun _ => htwo, by omega⟩
  | three_old htwo hthree => exact ⟨by omega, fun _ => htwo, fun _ => hthree⟩
  | four_new htwo => exact ⟨by omega, fun _ => .tail _ htwo, by omega⟩
  | four_old htwo hthree => exact ⟨by omega, fun _ => htwo, fun _ => hthree⟩
  | _ => exact ⟨by omega, by omega, by omega⟩

/-- Only short chains are committed on the way. -/
theorem Resumes.mem_or_le (h : Resumes C k r D) (hm : m ∈ D) : m ∈ C ∨ m ≤ 4 := by
  cases h with
  | two_old | three_old | four_old => exact .inl hm
  | two_new | three_new | four_new =>
      rcases List.mem_cons.1 hm with rfl | hm
      · exact .inr (by omega)
      · exact .inl hm

/-- The calls for the rest of a longer chain. -/
theorem Resumes.exists_shortens (h : Resumes C k r D) (o : Owner) :
    ∃ j E, Shortens o (k + 2) C j E ∧ Shortens o (j + 1) E r D := by
  cases h with
  | two_new htwo => exact ⟨0, _, .two_new htwo, .one⟩
  | two_old htwo => exact ⟨1, _, .two_old htwo, .two_old htwo⟩
  | three_new hthree => exact ⟨0, _, .three_new hthree, .one⟩
  | three_old htwo hthree => exact ⟨2, _, .three_old hthree, .three_old hthree⟩
  | four_new htwo hfour =>
      have htwo' : 2 ∈ 4 :: C := .tail _ htwo
      exact ⟨1, _, .spine_new .one hfour (.two_old htwo') (.two_old htwo'), .two_old htwo'⟩
  | four_old htwo hthree hfour =>
      exact ⟨2, _, .spine_old .one hfour (.two_old htwo), .three_old hthree⟩

end

/-- What is left over of a chain is explained. -/
theorem explained_trail (n : Nat) : Explained (trail n).1 (trail n).2 := by
  induction n using trail.induct with
  | case5 n ih => exact (ih.mono fun _ => List.mem_cons_of_mem _).resumes.explained
  | _ => exact ⟨by decide, by decide, by decide⟩

/-- How a chain goes on after its head. -/
theorem resumes_trail (n : Nat) : Resumes ((n + 4) :: (trail (n + 1)).2) (trail (n + 1)).1
    (trail (n + 4)).1 (trail (n + 4)).2 :=
  ((explained_trail (n + 1)).mono fun _ => List.mem_cons_of_mem _).resumes

/-- Chains commit no chains that are longer. -/
theorem le_of_mem_trail {n m : Nat} (h : m ∈ (trail n).2) : m ≤ n := by
  induction n using trail.induct with
  | case1 => cases h
  | case2 => cases h
  | case3 => simp_all [trail]
  | case4 => simp_all [trail]
  | case5 n ih =>
      rcases (resumes_trail n).mem_or_le h with hmem | hshort
      · rcases List.mem_cons.1 hmem with rfl | hmem
        · exact Nat.le_refl _
        · exact Nat.le_trans (ih hmem) (by omega)
      · omega

end Chain

open Chain

/-- **A chain comes to what the recursion says**, with a guard that is empty at first. -/
theorem shortens_trail (o : Owner) (n : Nat) : Shortens o n [] (trail n).1 (trail n).2 := by
  induction n using trail.induct with
  | case1 => exact .zero
  | case2 => exact .one
  | case3 => exact .two_new List.not_mem_nil
  | case4 => exact .three_new List.not_mem_nil
  | case5 n ih =>
      -- The chain is longer than all that its head has committed, so it is new.
      have hnew : n + 4 ∉ (trail (n + 1)).2 := by
        intro hmem
        have := le_of_mem_trail hmem
        omega
      obtain ⟨j, E, inner, whole⟩ := (resumes_trail n).exists_shortens o
      exact .spine_new ih hnew inner whole

/-! ## The solution of the recursion -/

namespace Chain

/-- The lengths of the chains that come to `I`. -/
def leavingNone : List Nat := [0, 1, 2, 3, 4, 6, 8, 10]

/-- The lengths of the chains that come to `I I`. -/
def leavingOne : List Nat := [5, 7, 9, 11, 13, 15, 17]

/-- The further `I`s in what a chain comes to. -/
def remnant (n : Nat) : Nat := if n ∈ leavingNone then 0 else if n ∈ leavingOne then 1 else 2

theorem remnant_eq_zero_iff {n : Nat} : remnant n = 0 ↔ n ∈ leavingNone := by
  unfold remnant
  split
  · simp_all
  · split <;> simp_all

/-- From a length of 18 on, nothing changes: all short chains are in the guard. -/
theorem trail_of_le {n : Nat} (h : 18 ≤ n) : (trail n).1 = 2 ∧ 4 ∈ (trail n).2 := by
  induction n using Nat.strong_induction_on with
  | h n ih =>
      -- A chain follows the one with three arguments less, so three lengths come first.
      by_cases hn : n < 21
      · have hcases : n = 18 ∨ n = 19 ∨ n = 20 := by omega
        rcases hcases with rfl | rfl | rfl <;> decide
      · obtain ⟨m, rfl⟩ := Nat.exists_eq_add_of_le' (Nat.le_of_not_lt hn)
        obtain ⟨htwo, hfour⟩ := ih (m + 18) (by omega) (by omega)
        have hrest : trail (m + 21) =
            resume (trail (m + 18)).1 ((m + 21) :: (trail (m + 18)).2) := rfl
        simp [hrest, htwo, resume, hfour]

/-- **The recursion has the closed form for its solution.** -/
theorem trail_fst (n : Nat) : (trail n).1 = remnant n := by
  by_cases hn : n < 18
  · have hshort : ∀ n < 18, (trail n).1 = remnant n := by decide
    exact hshort n hn
  · have hnone : n ∉ leavingNone := by
      simp only [leavingNone, List.mem_cons, List.not_mem_nil, or_false]
      omega
    have hone : n ∉ leavingOne := by
      simp only [leavingOne, List.mem_cons, List.not_mem_nil, or_false]
      omega
    rw [(trail_of_le (Nat.le_of_not_lt hn)).1, remnant, if_neg hnone, if_neg hone]

end Chain

/-! ## Results -/

/-- Normalization returns what is left over of a chain. -/
theorem returnsFrom_chain (o : Owner) (n : Nat) :
    ReturnsFrom o .empty (chain n) (chain (remnant n)) :=
  returnsFrom_iff.2 ⟨_, trail_fst n ▸ shortens_trail o n⟩

/-- **Chains of identities shrink to at most three of them.**  With a guard that is empty at
first, normalization halts for every chain.  What it returns is `I` only for `I` with up to
four, with six, eight or ten further `I`s, though all chains reduce to `I`. -/
theorem identity_chains (o : Owner) (n : Nat) :
    ReturnsFrom o .empty (chain n) (chain (remnant n)) ∧
      (ReturnsFrom o .empty (chain n) I ↔ n ∈ [0, 1, 2, 3, 4, 6, 8, 10]) := by
  have hreturns := returnsFrom_chain o n
  refine ⟨hreturns, ?_⟩
  rw [← leavingNone, ← remnant_eq_zero_iff]
  constructor
  · intro h
    exact chain_injective (hreturns.unique h)
  · intro h
    rw [h] at hreturns
    exact hreturns

/-- **Not all chains of identities come to `I`**: with five further `I`s, `I I` is left over. -/
theorem not_collapses_of_five :
    ReturnsFrom (.thread .main) .empty (chain 5) (app I I) ∧
      ¬ ∀ n, ReturnsFrom (.thread .main) .empty (chain n) I := by
  have hfive : ReturnsFrom (.thread .main) .empty (chain 5) (app I I) :=
    returnsFrom_chain (.thread .main) 5
  refine ⟨hfive, fun h => ?_⟩
  have hsame : app I I = I := hfive.unique (h 5)
  cases hsame

end Combinatory
