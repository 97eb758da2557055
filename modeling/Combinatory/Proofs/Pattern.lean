import Combinatory.Rule

/-!
# Patterns

A pattern is a term with numbered holes.  Its text has a placeholder for each hole, so
that the templates of the catalogue are the texts of patterns (`Rule.text_pattern`),
and a term is a pattern without holes (`Term.text_pattern`).  Filling the holes gives
the terms that a template stands for.

## Main definitions

* `Pattern`, `Pattern.text`: patterns and how they are written.
* `Pattern.fill`: the term that comes of filling the holes.
* `Term.pattern`, `Rule.pattern`: terms and templates as patterns.
* `Rule.needs`: how many bindings a rule asks for.
-/

namespace Combinatory

/-- Terms with numbered holes. -/
inductive Pattern
  | prim (p : Primitive)
  | var (x : VarName)
  | hole (number : Nat)
  | app (left right : Pattern)
deriving DecidableEq

namespace Pattern

/-- The text of a pattern, where a hole is written as the placeholder of its number. -/
def text : Pattern → String
  | prim p => p.letter
  | var x => x.text
  | hole number => placeholder number
  | app l r => "(" ++ l.text ++ ", " ++ r.text ++ ")"

/-- The term that comes of filling every hole with the argument of its number. -/
def fill (arg : Nat → Term) : Pattern → Term
  | prim p => .prim p
  | var x => .var x
  | hole number => arg number
  | app l r => .app (l.fill arg) (r.fill arg)

end Pattern

/-- A term as a pattern without holes. -/
def Term.pattern : Term → Pattern
  | prim p => .prim p
  | var x => .var x
  | app l r => .app l.pattern r.pattern

namespace Term

/-- A term is written as the pattern that it is. -/
@[simp] theorem text_pattern (t : Term) : t.pattern.text = t.script := by
  induction t with
  | prim p => simp [pattern, Pattern.text]
  | var x => simp [pattern, Pattern.text]
  | app l r ihl ihr => simp [pattern, Pattern.text, ihl, ihr]

/-- There is nothing to fill in a term. -/
@[simp] theorem fill_pattern (arg : Nat → Term) (t : Term) : t.pattern.fill arg = t := by
  induction t with
  | prim p => rfl
  | var x => rfl
  | app l r ihl ihr => rw [pattern, Pattern.fill, ihl, ihr]

/-- Terms with the same pattern are the same. -/
theorem pattern_injective {t u : Term} (h : t.pattern = u.pattern) : t = u := by
  rw [← fill_pattern (fun _ => I) t, h, fill_pattern]

end Term

namespace Rule

open Pattern

/-- The template of a rule, as a pattern. -/
def pattern : Rule → Pattern
  | identity => app (prim .I) (hole 1)
  | identityApplied => app (app (prim .I) (hole 1)) (hole 2)
  | constant => app (app (prim .K) (hole 1)) (hole 2)
  | identityAppliedTwice => app (app (app (prim .I) (hole 1)) (hole 2)) (hole 3)
  | constantApplied => app (app (app (prim .K) (hole 1)) (hole 2)) (hole 3)
  | substitution => app (app (app (prim .S) (hole 1)) (hole 2)) (hole 3)
  | pair => app (app (hole 1) (hole 2)) (app (hole 3) (hole 4))
  | nestedHead => app (app (app (hole 1) (hole 2)) (hole 3)) (hole 4)

/-- Templates are the texts of their patterns. -/
theorem text_pattern (r : Rule) : r.pattern.text = r.template := by
  cases r <;> decide

/-- The number of bindings that a rule asks for: all that its template has, but for the
second of `K`, which is dropped. -/
def needs : Rule → Nat
  | identity | constant => 1
  | identityApplied => 2
  | identityAppliedTwice | constantApplied | substitution => 3
  | pair | nestedHead => 4

end Rule

end Combinatory
