/-!
# Pools of named things

A pool holds things that change over time, each in a cell of its own.  A cell is known
by its number, and may have any number of names: what is changed under one name is
changed under all of them.  Names stand in the order in which they were first given.

## Main definitions

* `Pool`: cells, and names for them.
* `Pool.add`, `Pool.get`, `Pool.set`: a new cell, and the content of a cell.
* `Pool.assign`, `Pool.nameOf?`: names of cells.
* `assignName`: give a name in a list of names.
-/

namespace Combinatory

/-- Give a name to a thing.  A name that is in use keeps its place in the list. -/
def assignName {β : Type} (name : String) (b : β) : List (String × β) → List (String × β)
  | [] => [(name, b)]
  | entry :: rest =>
      if name = entry.1 then (name, b) :: rest else entry :: assignName name b rest

/-- Cells with contents of type `α`, and names for them. -/
structure Pool (α : Type) where
  cells : List α
  names : List (String × Nat)

namespace Pool

variable {α : Type}

/-- The pool without cells. -/
def empty : Pool α := ⟨[], []⟩

/-- A new cell with the content given, after the others; its number comes first. -/
def add (p : Pool α) (a : α) : Nat × Pool α :=
  (p.cells.length, ⟨p.cells ++ [a], p.names⟩)

/-- The content of a cell; a number that belongs to no cell has the default content. -/
def get [Inhabited α] (p : Pool α) (id : Nat) : α := p.cells[id]?.getD default

/-- Change the content of a cell. -/
def set (p : Pool α) (id : Nat) (a : α) : Pool α := ⟨p.cells.set id a, p.names⟩

/-- Give a name to a cell. -/
def assign (p : Pool α) (name : String) (id : Nat) : Pool α :=
  ⟨p.cells, assignName name id p.names⟩

/-- The first name of a cell. -/
def nameOf? (p : Pool α) (id : Nat) : Option String :=
  (p.names.find? fun entry => decide (entry.2 = id)).map Prod.fst

/-- A new cell has the content that it was made with. -/
@[simp] theorem get_add [Inhabited α] (p : Pool α) (a : α) :
    (p.add a).2.get (p.add a).1 = a := by
  simp [add, get]

/-- A new cell leaves the others alone. -/
theorem get_add_of_lt [Inhabited α] (p : Pool α) (a : α) {id : Nat} (h : id < p.cells.length) :
    (p.add a).2.get id = p.get id := by
  simp [add, get, List.getElem?_append_left h]

/-- A new cell with the default content does not show. -/
theorem get_add_default [Inhabited α] (p : Pool α) (id : Nat) :
    (p.add default).2.get id = p.get id := by
  by_cases h : id < p.cells.length
  · exact p.get_add_of_lt default h
  · have hnone : p.cells[id]? = none := List.getElem?_eq_none (Nat.le_of_not_lt h)
    rw [get, get, hnone, add, List.getElem?_append_right (Nat.le_of_not_lt h)]
    cases id - p.cells.length <;> rfl

/-- Changing one cell leaves the others alone. -/
theorem get_set_of_ne [Inhabited α] (p : Pool α) (a : α) {id other : Nat} (h : other ≠ id) :
    (p.set id a).get other = p.get other := by
  simp [set, get, List.getElem?_set_ne (Ne.symm h)]

/-- A cell has the content that was last put into it. -/
theorem get_set_self [Inhabited α] (p : Pool α) (a : α) {id : Nat} (h : id < p.cells.length) :
    (p.set id a).get id = a := by
  simp [set, get, h]

/-- A number that belongs to no cell cannot be changed. -/
theorem set_of_le (p : Pool α) (a : α) {id : Nat} (h : p.cells.length ≤ id) : p.set id a = p := by
  rw [set, List.set_eq_of_length_le h]

/-- To put back what is in a cell changes nothing. -/
@[simp] theorem set_get [Inhabited α] (p : Pool α) (id : Nat) : p.set id (p.get id) = p := by
  by_cases h : id < p.cells.length
  · simp [set, get, h]
  · exact p.set_of_le _ (Nat.le_of_not_lt h)

/-- Changing a new cell is the same as making it with the new content. -/
theorem set_add (p : Pool α) (a b : α) : (p.add a).2.set (p.add a).1 b = (p.add b).2 := by
  simp [add, set]

end Pool

end Combinatory
