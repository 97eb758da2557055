import Combinatory.Owner

/-!
# Guards

A guard remembers what has been committed to it, for each owner apart.  Committing
says whether the entry is new to its owner; this is what lets an evaluation notice
that it has come back to a redex.  Nothing is ever forgotten, and an owner is known
from its first commit on.

## Main definitions

* `Guard`: what each owner has committed.
* `Guard.entries`: the view that the other operations are explained by.
* `Guard.commit`: commit an entry, and learn whether it is new.
-/

namespace Combinatory

/-- What each owner has committed, the newest first; owners stand in the order of their
first commit. -/
structure Guard (α : Type) where
  shelves : List (Owner × List α)
deriving DecidableEq

namespace Guard

variable {α : Type}

/-- The guard to which nothing has been committed. -/
def empty : Guard α := ⟨[]⟩

instance : Inhabited (Guard α) := ⟨empty⟩

/-- What an owner has committed, the newest first. -/
def entries (g : Guard α) (o : Owner) : List α := (g.shelves.lookup o).getD []

/-- The number of owners that have committed something. -/
def size (g : Guard α) : Nat := g.shelves.length

/-- The shelves with the content of one owner's replaced, or with a new one at the end. -/
def putShelf (o : Owner) (as : List α) : List (Owner × List α) → List (Owner × List α)
  | [] => [(o, as)]
  | shelf :: rest => if o = shelf.1 then (o, as) :: rest else shelf :: putShelf o as rest

/-- Commit an entry for an owner.  It is new if the owner has not committed it before;
one that is not new changes nothing. -/
def commit [DecidableEq α] (g : Guard α) (o : Owner) (a : α) : Bool × Guard α :=
  if a ∈ g.entries o then (false, g) else (true, ⟨putShelf o (a :: g.entries o) g.shelves⟩)

theorem lookup_putShelf (o o' : Owner) (as : List α) (shelves : List (Owner × List α)) :
    (putShelf o as shelves).lookup o' = if o' = o then some as else shelves.lookup o' := by
  induction shelves with
  | nil =>
    by_cases h : o' = o
    · simp [putShelf, h]
    · have hb : (o' == o) = false := beq_eq_false_iff_ne.2 h
      simp [putShelf, List.lookup_cons, h, hb]
  | cons shelf rest ih =>
    obtain ⟨k, v⟩ := shelf
    unfold putShelf
    by_cases hk : o = k
    · subst hk
      by_cases h : o' = o
      · simp [h]
      · have hb : (o' == o) = false := beq_eq_false_iff_ne.2 h
        simp [List.lookup_cons, h, hb]
    · by_cases h' : o' = k
      · have h : o' ≠ o := fun e => hk (e.symm.trans h')
        simp [hk, h', Ne.symm hk]
      · have hb : (o' == k) = false := beq_eq_false_iff_ne.2 h'
        simp [hk, List.lookup_cons, hb, ih]

@[simp] theorem entries_empty (o : Owner) : (empty : Guard α).entries o = [] := rfl

@[simp] theorem size_empty : (empty : Guard α).size = 0 := rfl

section Commit

variable [DecidableEq α] (g : Guard α) (o o' : Owner) (a : α)

/-- A commit is new exactly when the owner does not have the entry. -/
@[simp] theorem commit_fst : (g.commit o a).1 = decide (a ∉ g.entries o) := by
  unfold commit
  split <;> simp_all

/-- A commit puts an entry that is new in front of the owner's others, and touches no
other owner's. -/
theorem entries_commit :
    (g.commit o a).2.entries o' =
      if o' = o ∧ a ∉ g.entries o then a :: g.entries o else g.entries o' := by
  unfold commit
  split
  · simp_all
  · rename_i h
    by_cases ho : o' = o <;> simp [entries, lookup_putShelf, ho]
    intro ha
    exact absurd ha h

/-- After a commit the owner has the entry and what it had before. -/
@[simp] theorem mem_entries_commit (b : α) :
    b ∈ (g.commit o a).2.entries o ↔ b = a ∨ b ∈ g.entries o := by
  rw [entries_commit]
  split
  · simp
  · rename_i h
    have : a ∈ g.entries o := by
      by_cases ha : a ∈ g.entries o
      · exact ha
      · exact absurd ⟨rfl, ha⟩ h
    constructor
    · exact Or.inr
    · rintro (rfl | hb)
      · exact this
      · exact hb

/-- The commits of one owner do not show in the entries of another. -/
theorem entries_commit_of_ne (h : o' ≠ o) : (g.commit o a).2.entries o' = g.entries o' := by
  rw [entries_commit]
  simp [h]

end Commit

/-- What an owner has committed, in the order of the texts. -/
def listing (g : Guard String) (o : Owner) : List String :=
  (g.entries o).mergeSort fun a b => decide (a ≤ b)

end Guard

end Combinatory
