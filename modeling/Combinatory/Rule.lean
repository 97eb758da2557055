import Combinatory.Signature

/-!
# The catalogue of rules

Each rule has a template, the text of the signatures that it applies to, and is looked
for at one depth of unfolding.  What a rule does is said over an arbitrary monad: it
asks for the terms bound to placeholders, normalizes terms, and some rules commit the
redex first.  A redex that has been committed before takes a shorter way.

## Main definitions

* `Rule`: the rules.
* `Rule.template`, `Rule.depth`: how a rule is recognised.
* `Rule.ofTemplate`: the rule of a template.
* `Rule.contract`: what a rule does.
-/

namespace Combinatory

/-- The rules, in the order in which they are looked for. -/
inductive Rule
  /-- An applied `I`: the result of `I a` is `a`. -/
  | identity
  /-- An `I` with one argument too many: the result of `I a b` is that of `a b`. -/
  | identityApplied
  /-- An applied `K`: the result of `K a b` is `a`. -/
  | constant
  /-- An `I` with two arguments too many: the result of `I a b c` is that of `a b c`. -/
  | identityAppliedTwice
  /-- A `K` with one argument too many: the result of `K a b c` is that of `a c`. -/
  | constantApplied
  /-- An applied `S`: the result of `S a b c` is that of `a c (b c)`. -/
  | substitution
  /-- Two applications: `a b (c d)` has both its parts normalized. -/
  | pair
  /-- A longer spine: `a b c d`, whose head `a` is an application, has its head
  normalized, and then the rest of the spine. -/
  | nestedHead
deriving DecidableEq, Repr

namespace Rule

/-- The rules, in the order in which they are looked for. -/
def catalogue : List Rule :=
  [identity, identityApplied, constant, identityAppliedTwice, constantApplied, substitution,
   pair, nestedHead]

/-- The text of the signatures that a rule applies to. -/
def template : Rule → String
  | identity => "(I, $1)"
  | identityApplied => "((I, $1), $2)"
  | constant => "((K, $1), $2)"
  | identityAppliedTwice => "(((I, $1), $2), $3)"
  | constantApplied => "(((K, $1), $2), $3)"
  | substitution => "(((S, $1), $2), $3)"
  | pair => "(($1, $2), ($3, $4))"
  | nestedHead => "((($1, $2), $3), $4)"

/-- The depth to which a redex is unfolded when the rule is looked for. -/
def depth : Rule → Nat
  | identity => 0
  | identityApplied | constant => 1
  | identityAppliedTwice | constantApplied | substitution | pair | nestedHead => 2

/-- The name under which the catalogue lists a rule. -/
def title : Rule → String
  | identity => "IDENTITY"
  | identityApplied => "IDENTITY_APPLIED"
  | constant => "CONSTANT"
  | identityAppliedTwice => "IDENTITY_APPLIED_TWICE"
  | constantApplied => "CONSTANT_APPLIED"
  | substitution => "SUBSTITUTION"
  | pair => "PAIR"
  | nestedHead => "NESTED_HEAD"

/-- The depths at which rules are looked for, in this order. -/
def depths : List Nat := [0, 1, 2]

/-- The rules that are looked for at a depth. -/
def atDepth (d : Nat) : List Rule := catalogue.filter fun r => decide (r.depth = d)

/-- The rule of a template. -/
def ofTemplate (template : String) : Except Fault Rule :=
  match catalogue.find? fun r => decide (r.template = template) with
  | some r => .ok r
  | none => .error (.unknownTemplate template)

/-- What a rule makes of a redex.  `arg` gives the term bound to the placeholder of a
number; `commit` commits the redex and says whether that is new.  All the terms that
a rule needs are asked for before it does anything. -/
def contract {m : Type → Type} [Monad m] (arg : Nat → m Term) (normalize : Term → m Term)
    (commit : m Bool) : Rule → m Term
  | identity => arg 1
  | identityApplied => do
      let a ← arg 1
      let b ← arg 2
      let fresh ← commit
      let a' ← normalize a
      let b' ← normalize b
      if fresh then normalize (.app a' b') else pure (.app a' b')
  | constant => arg 1
  | identityAppliedTwice => do
      let a ← arg 1
      let b ← arg 2
      let c ← arg 3
      let fresh ← commit
      let a' ← normalize a
      if fresh then
        let b' ← normalize b
        let head ← normalize (.app a' b')
        let c' ← normalize c
        normalize (.app head c')
      else pure (.app (.app a' b) c)
  | constantApplied => do
      let a ← arg 1
      let _ ← arg 2
      let c ← arg 3
      normalize (.app a c)
  | substitution => do
      let a ← arg 1
      let b ← arg 2
      let c ← arg 3
      let fresh ← commit
      if fresh then
        let left ← normalize (.app a c)
        let right ← normalize (.app b c)
        normalize (.app left right)
      else normalize (.app (.app a c) (.app b c))
  | pair => do
      let a ← arg 1
      let b ← arg 2
      let c ← arg 3
      let d ← arg 4
      let left ← normalize (.app a b)
      let right ← normalize (.app c d)
      normalize (.app left right)
  | nestedHead => do
      let a ← arg 1
      let b ← arg 2
      let c ← arg 3
      let d ← arg 4
      let a' ← normalize a
      let fresh ← commit
      let inner ← normalize (.app (.app a' b) c)
      if fresh then normalize (.app inner d)
      else
        let d' ← normalize d
        pure (.app inner d')

/-- The template of a rule leads back to it. -/
@[simp] theorem ofTemplate_template (r : Rule) : ofTemplate r.template = .ok r := by
  cases r <;> rfl

/-- Every rule is in the catalogue. -/
@[simp] theorem mem_catalogue (r : Rule) : r ∈ catalogue := by
  cases r <;> simp [catalogue]

/-- A rule is looked for at its own depth only. -/
@[simp] theorem mem_atDepth (r : Rule) (d : Nat) : r ∈ atDepth d ↔ r.depth = d := by
  simp [atDepth]

/-- Templates tell the rules apart. -/
theorem template_injective {r r' : Rule} (h : r.template = r'.template) : r = r' := by
  have := ofTemplate_template r
  rw [h, ofTemplate_template] at this
  cases this
  rfl

end Rule

end Combinatory
