import Combinatory.Number
import Combinatory.Term.Basic
import Combinatory.Text.Quoted

/-!
# Data offered to the constructors

Terms are built from whatever a caller offers, and a refusal shows what was offered.
A `Datum` is such an offer: a plain value, the tag of a primitive, or a term.

## Main definitions

* `Datum`: the offers.
* `Datum.kindName`: the name of a datum's kind, as messages give it.
* `Datum.inspect`, `Datum.isWritable`: the text that shows a datum in a message, and whether
  it is made.
* `Datum.sameValue`: equality of data by value.
* `Datum.number?`: the number that a datum can be counted with.
-/

namespace Combinatory

/-- What a caller may offer. -/
inductive Datum
  | null
  | number (n : Number)
  | text (s : String)
  | list (items : List Datum)
  | record (fields : List (String × Datum))
  | tag (p : Primitive)
  | term (t : Term)
deriving Inhabited

namespace Primitive

/-- The tag of a primitive, as a message shows it: the letter says both which tag it
is and what its value is. -/
def inspectTag (p : Primitive) : String :=
  "<PrimitiveKind." ++ p.letter ++ ": " ++ Text.quoted p.letter ++ ">"

end Primitive

namespace Term

/-- The name of a term's form. -/
def kindName : Term → String
  | prim _ => "Primitive"
  | var _ => "Variable"
  | app _ _ => "Application"

/-- A term as a message shows it, with its form and its parts spelled out. -/
def inspect : Term → String
  | prim p => "Primitive(kind=" ++ p.inspectTag ++ ")"
  | var x => "Variable(name=" ++ Text.quoted x.text ++ ")"
  | app l r => "Application(left=" ++ l.inspect ++ ", right=" ++ r.inspect ++ ")"

end Term

namespace Datum

/-- The name of a datum's kind. -/
def kindName : Datum → String
  | null => "NoneType"
  | number n => n.kindName
  | text _ => "str"
  | list _ => "list"
  | record _ => "dict"
  | tag _ => "PrimitiveKind"
  | term t => t.kindName

mutual

/-- A datum as a message shows it. -/
def inspect : Datum → String
  | null => "None"
  | number n => n.render
  | text s => Text.quoted s
  | list items => "[" ++ ", ".intercalate (inspectItems items) ++ "]"
  | record fields => "\x7b" ++ ", ".intercalate (inspectFields fields) ++ "\x7d"
  | tag p => p.inspectTag
  | term t => t.inspect

/-- The items of a list, each as a message shows it. -/
def inspectItems : List Datum → List String
  | [] => []
  | d :: rest => d.inspect :: inspectItems rest

/-- The fields of a record, each with its name in front. -/
def inspectFields : List (String × Datum) → List String
  | [] => []
  | (name, d) :: rest => (Text.quoted name ++ ": " ++ d.inspect) :: inspectFields rest

end

mutual

/-- Whether the text that shows a datum is made: all its numbers have to be written. -/
def isWritable : Datum → Bool
  | number n => n.isWritable
  | list items => areWritable items
  | record fields => haveWritable fields
  | _ => true

/-- Whether the texts of all items of a list are made. -/
def areWritable : List Datum → Bool
  | [] => true
  | d :: rest => d.isWritable && areWritable rest

/-- Whether the texts of all fields of a record are made. -/
def haveWritable : List (String × Datum) → Bool
  | [] => true
  | (_, d) :: rest => d.isWritable && haveWritable rest

end

/-- The number that a datum can be counted with. -/
def number? : Datum → Option Number
  | number n => some n
  | _ => none

/-- The number that a datum is exactly, if it is a finite one. -/
def value? (d : Datum) : Option Dyadic := d.number?.bind Number.value?

/-- The text that a datum is, if it is one; the tag of a primitive is its letter. -/
def letters? : Datum → Option String
  | text s => some s
  | tag p => some p.letter
  | _ => none

/-- Sameness of two data that have no parts which are data.  Finite numbers are compared
exactly, whatever their kind. -/
def sameLeaf (a b : Datum) : Bool :=
  match a.value?, b.value?, a.letters?, b.letters? with
  | some x, some y, _, _ => decide (x = y)
  | _, _, some s, some u => decide (s = u)
  | _, _, _, _ =>
    match a, b with
    | null, null => true
    | number x, number y => decide (x = y)
    | term t, term u => decide (t = u)
    | _, _ => false

mutual

/-- Sameness of two data as parts of others: numbers are compared as numbers, lists in
order, records whatever their order, terms by structure; a term is never the same as
anything else. -/
def samePart : Datum → Datum → Bool
  | list xs, list ys => sameItems xs ys
  | record xs, record ys => decide (xs.length = ys.length) && sameFields xs ys
  | a, b => sameLeaf a b

/-- Sameness of two lists, item by item. -/
def sameItems : List Datum → List Datum → Bool
  | [], [] => true
  | x :: xs, y :: ys => samePart x y && sameItems xs ys
  | _, _ => false

/-- Whether every field of the first record is in the second, with the same content. -/
def sameFields : List (String × Datum) → List (String × Datum) → Bool
  | [], _ => true
  | (name, x) :: rest, ys =>
      (match ys.lookup name with
        | some y => samePart x y
        | none => false) && sameFields rest ys

end

/-- Equality by value.  What is undefined equals nothing, not even itself; but it is the
same as itself where it is a part of a list or a record. -/
def sameValue (a b : Datum) : Bool :=
  match a with
  | number (.double .undefined) => false
  | _ => samePart a b

@[simp] theorem sameValue_term (t u : Term) :
    sameValue (term t) (term u) = decide (t = u) := by
  simp [sameValue, samePart, sameLeaf, value?, number?, letters?]

end Datum

end Combinatory
