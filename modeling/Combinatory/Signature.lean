import Combinatory.Fault
import Combinatory.Term.Script

/-!
# Signatures

The signature of an application is its text down to a given depth of its left spine,
with a numbered placeholder for each subterm that is not written out: every argument
on the spine that is unfolded, and the application that is left over when the depth
is used up.  Placeholders are numbered in the order of the text, from one.

## Main definitions

* `placeholder`: the text of a placeholder.
* `Signature`: a text and the terms bound to its placeholders.
* `Signature.extract`: the signature of a term, to a depth.
* `Signature.get`, `Signature.bindings`: the terms bound to placeholders.
-/

namespace Combinatory

/-- The text of the placeholder of a number. -/
def placeholder (number : Nat) : String := "$" ++ toString number

/-- A text with placeholders, and the term bound to each, in the order of the text. -/
structure Signature where
  text : String
  bound : List (Nat × Term)
deriving DecidableEq

namespace Signature

/-- The signature in which nothing is written yet. -/
def empty : Signature := ⟨"", []⟩

/-- Write a text. -/
def write (σ : Signature) (s : String) : Signature := ⟨σ.text ++ s, σ.bound⟩

/-- Write the next placeholder and bind it to a term. -/
def hold (σ : Signature) (t : Term) : Signature :=
  let number := σ.bound.length + 1
  ⟨σ.text ++ placeholder number, σ.bound ++ [(number, t)]⟩

/-- Write the right part of an application, which is always a placeholder, and the
bracket behind it. -/
def close (σ : Signature) (right : Term) : Signature :=
  ((σ.write ", ").hold right).write ")"

/-- Write the left part of an application, after its bracket.  An application is
unfolded while the depth of its place is at most `maxdepth`, and is a placeholder
beyond that. -/
def openSpine (maxdepth : Int) : Term → Nat → Signature → Signature
  | .app l r, depth, σ =>
      if (depth : Int) ≤ maxdepth then
        (openSpine maxdepth l (depth + 1) (σ.write "(")).close r
      else (σ.write "(").hold (.app l r)
  | .prim p, _, σ => (σ.write "(").write p.letter
  | .var x, _, σ => (σ.write "(").write x.text

/-- The signature of a term whose left spine is unfolded to `maxdepth`.  Only an
application has one, and the depth is not negative. -/
def extract (t : Term) (maxdepth : Int) : Except Fault Signature :=
  match t with
  | .app l r =>
      if maxdepth < 0 then .error (.negativeDepth (.integer maxdepth))
      else .ok ((openSpine maxdepth l 1 empty).close r)
  | atom => .error (.noSignature (.term atom))

/-- The term bound to the placeholder of a number. -/
def get (σ : Signature) (number : Nat) : Except Fault Term :=
  match σ.bound.lookup number with
  | some t => .ok t
  | none => .error (.unbound number)

/-- The terms bound to `count` placeholders in a row, from the one of `number` on; the
first that is missing is the fault. -/
def bindingsFrom (σ : Signature) (number : Nat) : Nat → Except Fault (List Term)
  | 0 => .ok []
  | count + 1 => do
    let t ← σ.get number
    let rest ← bindingsFrom σ (number + 1) count
    return t :: rest

/-- The terms bound to the placeholders from one to `count`. -/
def bindings (σ : Signature) (count : Int) : Except Fault (List Term) :=
  σ.bindingsFrom 1 count.toNat

/-- A text with its first placeholders bound to the terms of a list. -/
def ofBindings (text : String) (terms : List Term) : Signature :=
  ⟨text, terms.mapIdx fun i t => (i + 1, t)⟩

@[simp] theorem text_write (σ : Signature) (s : String) : (σ.write s).text = σ.text ++ s := rfl
@[simp] theorem bound_write (σ : Signature) (s : String) : (σ.write s).bound = σ.bound := rfl

@[simp] theorem text_hold (σ : Signature) (t : Term) :
    (σ.hold t).text = σ.text ++ placeholder (σ.bound.length + 1) := rfl

@[simp] theorem bound_hold (σ : Signature) (t : Term) :
    (σ.hold t).bound = σ.bound ++ [(σ.bound.length + 1, t)] := rfl

@[simp] theorem text_close (σ : Signature) (t : Term) :
    (σ.close t).text =
      σ.text ++ ", " ++ placeholder (σ.bound.length + 1) ++ ")" := rfl

@[simp] theorem bound_close (σ : Signature) (t : Term) :
    (σ.close t).bound = σ.bound ++ [(σ.bound.length + 1, t)] := rfl

end Signature

namespace Datum

/-- The depth that a number stands for, in unfolding a term.  One between two depths
stands for the lower, an infinite one for more than the term has, and what is undefined
reaches no depth. -/
def toDepth (t : Term) (d : Datum) : Except Fault Int :=
  match d with
  | number n =>
      if n.lt .zero then .error (.negativeDepth n)
      else if n = .double .undefined then .ok 0
      else .ok (n.wholes?.getD t.size)
  | other => .error (.notComparable other)

/-- The number of bindings that a datum asks for. -/
def toCount (d : Datum) : Except Fault Int :=
  match d.number? >>= Number.toInt? with
  | some n => .ok n
  | none => .error (.notACount d)

/-- The signature of an offer, to a depth that is an offer too: the first has to be an
application before the second is looked at. -/
def signature (subject depth : Datum) : Except Fault Signature :=
  match subject with
  | term (.app l r) => do Signature.extract (.app l r) (← depth.toDepth (.app l r))
  | other => .error (.noSignature other)

end Datum

end Combinatory
