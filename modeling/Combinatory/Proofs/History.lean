import Combinatory.Guard
import Mathlib.Data.Finset.Card
import Mathlib.Data.List.Dedup

/-!
# A guard is a history

What a guard answers is decided by what was committed to it, and by nothing else.  A commit is
new if it was not made before for the same owner; what an owner has committed are the texts of
its commits, each of them once; and the guard knows the owners that have committed something.
Questions leave no trace: an owner that is only asked about is not known.

The guard keeps a shelf for each owner, which is put up with the first commit.  That the owners
of the shelves are those of the commits, and that nothing stands there twice, is what an
operation preserves.

## Main definitions

* `Guard.Operation`, `Guard.Reply`: what is done with a guard, and what it answers.
* `Guard.record`: operations one after another, with the replies to them.
* `Guard.Truthful`: a reply is what follows from the operations before it.
* `Guard.Remembers`: a guard after such operations.

## Main results

* `Guard.Remembers.perform`: an operation is answered truthfully and remembered.
* `Guard.exact_history`: on a new guard all replies are truthful, and to ask what an owner has
  committed changes no other.
-/

namespace Combinatory.Guard

/-! ## Owners -/

section

variable {α : Type} {g : Guard α} {o o' : Owner} {a : α}

/-- The owners that have a shelf. -/
def owners (g : Guard α) : List Owner := g.shelves.map Prod.fst

theorem size_eq_length_owners (g : Guard α) : g.size = g.owners.length := by
  rw [size, owners, List.length_map]

/-- Who has committed something has a shelf. -/
theorem mem_owners_of_mem_entries (h : a ∈ g.entries o) : o ∈ g.owners := by
  rw [entries] at h
  cases hlookup : g.shelves.lookup o with
  | none => simp [hlookup] at h
  | some as =>
      obtain ⟨l₁, l₂, hsplit, -⟩ := List.lookup_eq_some_iff.1 hlookup
      exact List.mem_map.2 ⟨(o, as), by simp [hsplit], rfl⟩

/-- A shelf that is there keeps its place, and another is put at the end. -/
theorem map_fst_putShelf (o : Owner) (as : List α) (shelves : List (Owner × List α)) :
    (putShelf o as shelves).map Prod.fst =
      if o ∈ shelves.map Prod.fst then shelves.map Prod.fst
      else shelves.map Prod.fst ++ [o] := by
  induction shelves with
  | nil => rfl
  | cons shelf rest ih =>
      rw [putShelf]
      by_cases ho : o = shelf.1
      · simp [ho]
      · by_cases hmem : o ∈ rest.map Prod.fst <;> simp [ho, hmem, ih]

variable [DecidableEq α]

/-- The owner of a commit has a shelf afterwards, and there is no other new one. -/
theorem owners_commit (g : Guard α) (o : Owner) (a : α) :
    (g.commit o a).2.owners = if o ∈ g.owners then g.owners else g.owners ++ [o] := by
  by_cases ha : a ∈ g.entries o
  -- The entry is on a shelf, so the owner has one.
  · rw [commit, if_pos ha, if_pos (mem_owners_of_mem_entries ha)]
  · rw [commit, if_neg ha]
    exact map_fst_putShelf o _ g.shelves

theorem mem_owners_commit : o' ∈ (g.commit o a).2.owners ↔ o' = o ∨ o' ∈ g.owners := by
  rw [owners_commit]
  split
  · exact ⟨.inr, by rintro (rfl | h) <;> assumption⟩
  · simp [or_comm]

theorem nodup_owners_commit (h : g.owners.Nodup) : (g.commit o a).2.owners.Nodup := by
  rw [owners_commit]
  split
  · exact h
  · rename_i ho
    exact List.nodup_middle.2 (by simp [ho, h])

/-- A commit does not put an entry where it is. -/
theorem nodup_entries_commit (h : (g.entries o').Nodup) :
    ((g.commit o a).2.entries o').Nodup := by
  rw [entries_commit]
  split
  · rename_i hnew
    obtain ⟨rfl, ha⟩ := hnew
    exact List.nodup_cons.2 ⟨ha, h⟩
  · exact h

/-- A commit that is new makes the owner's entries one more. -/
theorem length_entries_commit (g : Guard α) (o o' : Owner) (a : α) :
    ((g.commit o a).2.entries o').length =
      (g.entries o').length + if o' = o ∧ (g.commit o a).1 = true then 1 else 0 := by
  rw [entries_commit, commit_fst]
  by_cases ho : o' = o
  · subst ho
    by_cases ha : a ∈ g.entries o' <;> simp [ha]
  · simp [ho]

end

/-! ## Operations -/

/-- What is done with a guard. -/
inductive Operation
  | commit (o : Owner) (text : String)
  /-- To ask what an owner has committed. -/
  | committed (o : Owner)
  /-- To ask how many owners have committed something. -/
  | size

/-- What a guard answers. -/
inductive Reply
  /-- Whether a commit is new. -/
  | fresh (fresh : Bool)
  | texts (texts : List String)
  | size (n : Nat)

/-- Do an operation: the reply to it, and the guard after it. -/
def perform (g : Guard String) : Operation → Reply × Guard String
  | .commit o text => (.fresh (g.commit o text).1, (g.commit o text).2)
  | .committed o => (.texts (g.listing o), g)
  | .size => (.size g.size, g)

/-- Do operations one after another: each with the reply to it. -/
def record : List Operation → Guard String → List (Operation × Reply)
  | [], _ => []
  | op :: ops, g => (op, (g.perform op).1) :: record ops (g.perform op).2

/-- The guard after operations. -/
def after : List Operation → Guard String → Guard String
  | [], g => g
  | op :: ops, g => after ops (g.perform op).2

/-! ## Truth -/

/-- The owner of a commit. -/
def Operation.owner? : Operation → Option Owner
  | commit o _ => some o
  | committed _ => none
  | size => none

/-- Whether an entry of a record is a commit of the owner that was new. -/
def isNewFor (o : Owner) : Operation × Reply → Bool
  | (.commit o' _, .fresh fresh) => decide (o = o') && fresh
  | _ => false

/-- A reply is what follows from the record of the operations before it. -/
def Truthful (past : List (Operation × Reply)) : Operation × Reply → Prop
  | (.commit o text, .fresh fresh) =>
      fresh = true ↔ ∀ reply, (.commit o text, reply) ∉ past
  | (.committed o, .texts texts) =>
      texts.Nodup ∧ (∀ text, text ∈ texts ↔ ∃ reply, (.commit o text, reply) ∈ past) ∧
        texts.length = past.countP (isNewFor o)
  | (.size, .size n) => n = (past.filterMap fun entry => entry.1.owner?).toFinset.card
  | _ => False

/-- A guard after operations that were recorded. -/
structure Remembers (past : List (Operation × Reply)) (g : Guard String) : Prop where
  mem_entries : ∀ o text, text ∈ g.entries o ↔ ∃ reply, (.commit o text, reply) ∈ past
  nodup_entries : ∀ o, (g.entries o).Nodup
  length_entries : ∀ o, (g.entries o).length = past.countP (isNewFor o)
  mem_owners : ∀ o, o ∈ g.owners ↔ o ∈ past.filterMap fun entry => entry.1.owner?
  nodup_owners : g.owners.Nodup

namespace Remembers

variable {past : List (Operation × Reply)} {g : Guard String}

/-- A new guard comes after nothing. -/
theorem empty : Remembers [] .empty := by
  constructor <;> simp [owners, Guard.empty, entries]

/-- The guard knows the owners of the commits. -/
theorem size_eq (h : Remembers past g) :
    g.size = (past.filterMap fun entry => entry.1.owner?).toFinset.card := by
  have hsame : g.owners.toFinset = (past.filterMap fun entry => entry.1.owner?).toFinset := by
    ext o
    rw [List.mem_toFinset, List.mem_toFinset]
    exact h.mem_owners o
  rw [size_eq_length_owners, ← List.toFinset_card_of_nodup h.nodup_owners, hsame]

/-- A question leaves the guard as it is, and is no commit. -/
theorem ask (h : Remembers past g) {op : Operation} (hop : op.owner? = none) (reply : Reply) :
    Remembers (past ++ [(op, reply)]) g := by
  have hcommit : ∀ o text reply', (Operation.commit o text, reply') ∈ past ++ [(op, reply)] ↔
      (.commit o text, reply') ∈ past := by
    intro o text reply'
    cases op <;> simp_all [Operation.owner?]
  have hcount : ∀ o, (past ++ [(op, reply)]).countP (isNewFor o) = past.countP (isNewFor o) := by
    intro o
    cases op <;> simp_all [Operation.owner?, isNewFor]
  constructor
  case mem_entries => simpa only [hcommit] using h.mem_entries
  case nodup_entries => exact h.nodup_entries
  case length_entries => simpa only [hcount] using h.length_entries
  case mem_owners => simpa [hop] using h.mem_owners
  case nodup_owners => exact h.nodup_owners

/-- A commit is remembered. -/
theorem commit (h : Remembers past g) (o : Owner) (text : String) :
    Remembers (past ++ [(.commit o text, .fresh (g.commit o text).1)]) (g.commit o text).2 where
  mem_entries o' text' := by
    have hold := h.mem_entries o' text'
    by_cases ho : o' = o
    · subst ho
      simp [hold, exists_or, or_comm]
    · simp [ho, entries_commit_of_ne, hold]
  nodup_entries o' := nodup_entries_commit (h.nodup_entries o')
  length_entries o' := by
    rw [length_entries_commit, h.length_entries o', List.countP_append, List.countP_singleton]
    simp [isNewFor]
  mem_owners o' := by
    rw [mem_owners_commit, h.mem_owners o']
    simp [Operation.owner?, or_comm, eq_comm]
  nodup_owners := nodup_owners_commit h.nodup_owners

/-- **An operation is answered truthfully, and remembered.** -/
theorem perform (h : Remembers past g) (op : Operation) :
    Truthful past (op, (g.perform op).1) ∧
      Remembers (past ++ [(op, (g.perform op).1)]) (g.perform op).2 := by
  cases op with
  | commit o text =>
      refine ⟨?_, h.commit o text⟩
      simp only [Guard.perform, Truthful]
      simp [h.mem_entries o text]
  | committed o =>
      have hperm : (g.listing o).Perm (g.entries o) := List.mergeSort_perm _ _
      refine ⟨⟨hperm.nodup_iff.2 (h.nodup_entries o), fun text => ?_, ?_⟩, h.ask rfl _⟩
      · rw [hperm.mem_iff, h.mem_entries o text]
      · rw [hperm.length_eq, h.length_entries o]
  | size => exact ⟨h.size_eq, h.ask rfl _⟩

end Remembers

/-! ## Records -/

/-- **All replies of a record are truthful**, after operations that the guard remembers. -/
theorem truthful_record {past : List (Operation × Reply)} {g : Guard String}
    (h : Remembers past g) (ops : List Operation) {earlier later : List (Operation × Reply)}
    {entry : Operation × Reply} (hrecord : record ops g = earlier ++ entry :: later) :
    Truthful (past ++ earlier) entry := by
  induction ops generalizing past g earlier with
  | nil => simp [record] at hrecord
  | cons op ops ih =>
      obtain ⟨htruthful, hremembers⟩ := h.perform op
      rw [record] at hrecord
      cases earlier with
      | nil =>
          obtain ⟨rfl, -⟩ := List.cons_eq_cons.1 hrecord
          rwa [List.append_nil]
      | cons first earlier =>
          obtain ⟨rfl, hrest⟩ := List.cons_eq_cons.1 hrecord
          rw [List.append_cons]
          exact ih hremembers hrest

theorem map_fst_record (ops : List Operation) (g : Guard String) :
    (record ops g).map Prod.fst = ops := by
  induction ops generalizing g with
  | nil => rfl
  | cons op ops ih => rw [record, List.map_cons, ih]

theorem record_append (ops ops' : List Operation) (g : Guard String) :
    record (ops ++ ops') g = record ops g ++ record ops' (after ops g) := by
  induction ops generalizing g with
  | nil => rfl
  | cons op ops ih => rw [List.cons_append, record, ih, record, List.cons_append, after]

/-- **A guard is an exact history.**  On a new guard, whatever is done, each reply is what follows
from the operations before it: a commit is new if there was none of its text for its owner; what
an owner has committed are the texts of its commits, as many as were new; and the size is the
number of the owners of commits.  To ask in between what an owner has committed changes no
other reply. -/
theorem exact_history (ops : List Operation) :
    (record ops .empty).map Prod.fst = ops ∧
      (∀ past entry later, record ops .empty = past ++ entry :: later → Truthful past entry) ∧
      ∀ before rest o, ops = before ++ rest → ∃ earlier reply later,
        earlier.length = before.length ∧ record ops .empty = earlier ++ later ∧
          record (before ++ .committed o :: rest) .empty =
            earlier ++ (.committed o, reply) :: later := by
  refine ⟨map_fst_record ops .empty, fun past entry later h => ?_, ?_⟩
  · exact truthful_record .empty ops h
  · rintro before rest o rfl
    refine ⟨record before .empty, .texts ((after before .empty).listing o),
      record rest (after before .empty), ?_, record_append before rest .empty, ?_⟩
    · rw [← List.length_map Prod.fst, map_fst_record]
    · exact record_append before (.committed o :: rest) .empty

/-- A text that is committed twice, and a question about an owner that has committed nothing: the
second commit is not new, and there is one owner. -/
theorem exact_history_of_repeat :
    let main : Owner := .thread .main
    let other : Owner := .thread (.worker "other")
    let past : List (Operation × Reply) :=
      [(.commit main "x", .fresh true), (.commit main "x", .fresh false),
        (.committed other, .texts [])]
    let ops : List Operation := [.commit main "x", .commit main "x", .committed other, .size]
    record ops .empty = past ++ [(.size, .size 1)] ∧ Truthful past (.size, .size 1) := by
  intro main other past ops
  let g : Guard String := ⟨[(main, ["x"])]⟩
  have hfirst : empty.commit main "x" = (true, g) := rfl
  have hsecond : g.commit main "x" = (false, g) := if_pos (List.mem_singleton_self "x")
  have hother : g.listing other = [] := List.mergeSort_nil
  have hsize : g.size = 1 := rfl
  have hrecord : record ops .empty = past ++ (.size, .size 1) :: [] := by
    simp [ops, past, record, perform, hfirst, hsecond, hother, hsize]
  obtain ⟨-, htruthful, -⟩ := exact_history ops
  exact ⟨hrecord, htruthful past _ [] hrecord⟩

end Combinatory.Guard
