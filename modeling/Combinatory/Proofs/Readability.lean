import Combinatory.Proofs.Pattern
import Mathlib.Logic.Function.Basic
import Std.Data.String.ToNat

/-!
# Unique readability

The text of a pattern can be read in one way only, also where something goes on behind
it, as long as that could not belong to a name.  What carries this is that neither names
nor placeholders have a bracket or a comma in them: the end of an atom is seen from the
character behind it, and an application from its opening bracket.  Terms are patterns
without holes, so their texts inherit it.

## Main definitions

* `IsPunctuation`: the characters that applications are written with.
* `Follows`: the texts that may stand behind a written pattern.

## Main results

* `Pattern.text_append_inj`: a pattern and what follows it are determined by the text of
  both.
* `Pattern.text_injective`, `Term.script_injective`: what has the same text is the same.
* `Term.script_append_eq_iff`: a term and what follows it are read in one way only.
-/

namespace Combinatory

/-- Whether an application is written with a character. -/
def IsPunctuation (c : Char) : Prop := c = '(' ∨ c = ')' ∨ c = ','

/-- A text that could not belong to the name before it: it is empty, or begins with a
comma or with a closing bracket. -/
def Follows (p : List Char) : Prop := ∀ c ∈ p.head?, c = ',' ∨ c = ')'

theorem follows_nil : Follows [] := by
  intro c hc
  cases hc

theorem follows_comma (p : List Char) : Follows (',' :: p) := by
  intro c hc
  cases hc
  exact .inl rfl

theorem follows_bracket (p : List Char) : Follows (')' :: p) := by
  intro c hc
  cases hc
  exact .inr rfl

/-- A text that may stand behind a name begins with punctuation, if with anything. -/
theorem Follows.isPunctuation_head {c : Char} {p : List Char} (h : Follows (c :: p)) :
    IsPunctuation c := by
  rcases h c rfl with rfl | rfl
  · exact .inr (.inr rfl)
  · exact .inr (.inl rfl)

/-- Punctuation is not allowed in names. -/
theorem IsPunctuation.isDelimiter {c : Char} (h : IsPunctuation c) :
    NameDefect.isDelimiter c = true := by
  rcases h with rfl | rfl | rfl <;> rfl

/-- A text without punctuation ends where the first punctuation stands. -/
theorem append_inj_of_follows {xs ys p q : List Char} (hx : ∀ c ∈ xs, ¬ IsPunctuation c)
    (hy : ∀ c ∈ ys, ¬ IsPunctuation c) (hp : Follows p) (hq : Follows q)
    (h : xs ++ p = ys ++ q) : xs = ys ∧ p = q := by
  rcases List.append_eq_append_iff.1 h with ⟨zs, rfl, rfl⟩ | ⟨zs, rfl, rfl⟩
  · cases zs with
    | nil => simp
    | cons c cs => exact absurd (Follows.isPunctuation_head hp) (hy c (by simp))
  · cases zs with
    | nil => simp
    | cons c cs => exact absurd (Follows.isPunctuation_head hq) (hx c (by simp))

/-! ## Names and placeholders -/

namespace VarName

/-- A name has a character. -/
theorem text_ne_empty (x : VarName) : x.text ≠ "" :=
  (NameDefect.find?_eq_none_iff.1 x.sound).1

/-- No character of a name is a delimiter. -/
theorem isDelimiter_of_mem {x : VarName} {c : Char} (hc : c ∈ x.text.toList) :
    NameDefect.isDelimiter c = false :=
  (NameDefect.find?_eq_none_iff.1 x.sound).2.2 c hc

/-- A name is not the letter of a primitive. -/
theorem letter_ne_text (p : Primitive) (x : VarName) : p.letter ≠ x.text := by
  intro h
  have hx := (NameDefect.find?_eq_none_iff.1 x.sound).2.1
  rw [← h, Primitive.ofLetter?_letter] at hx
  cases hx

end VarName

/-- Different primitives have different letters. -/
theorem Primitive.letter_injective {p q : Primitive} (h : p.letter = q.letter) : p = q := by
  have hp := ofLetter?_letter p
  rw [h, ofLetter?_letter] at hp
  exact (Option.some.inj hp).symm

/-- A placeholder is a dollar sign with digits behind it. -/
theorem toList_placeholder (n : Nat) : (placeholder n).toList = '$' :: Nat.toDigits 10 n := by
  rw [placeholder, String.toList_append]
  simp only [toString, Nat.toList_repr]
  rfl

/-- Different numbers have different placeholders. -/
theorem placeholder_injective {m n : Nat} (h : placeholder m = placeholder n) : m = n :=
  Nat.repr_injective ((String.append_right_inj "$").1 h)

namespace Pattern

/-! ## Atoms -/

/-- Patterns that are no application. -/
def isAtom : Pattern → Bool
  | app _ _ => false
  | _ => true

/-- There is no punctuation in the text of an atom. -/
theorem not_isPunctuation_of_isAtom {P : Pattern} (hP : P.isAtom = true) :
    ∀ c ∈ P.text.toList, ¬ IsPunctuation c := by
  intro c hc h
  cases P with
  | prim p => cases p <;> simp_all [text, Primitive.letter, IsPunctuation]
  | var x =>
      have := VarName.isDelimiter_of_mem hc
      rw [h.isDelimiter] at this
      cases this
  | hole n =>
      rw [text, toList_placeholder, List.mem_cons] at hc
      rcases hc with rfl | hc
      · simp [IsPunctuation] at h
      · have := Nat.isDigit_of_mem_toDigits (by decide) (by decide) hc
        rcases h with rfl | rfl | rfl <;> simp [Char.isDigit] at this
  | app l r => cases hP

/-- The text of an atom is not empty. -/
theorem text_ne_nil_of_isAtom {P : Pattern} (hP : P.isAtom = true) : P.text.toList ≠ [] := by
  cases P with
  | prim p => cases p <;> simp [text, Primitive.letter]
  | var x => simpa [text] using x.text_ne_empty
  | hole n =>
      rw [text, toList_placeholder]
      exact List.cons_ne_nil _ _
  | app l r => cases hP

/-- A primitive has another text than a placeholder. -/
theorem letter_ne_placeholder (p : Primitive) (n : Nat) : p.letter ≠ placeholder n := by
  intro h
  have := congrArg String.toList h
  rw [toList_placeholder] at this
  cases p <;> simp [Primitive.letter] at this

/-- A name has another text than a placeholder, since it has no dollar sign. -/
theorem name_ne_placeholder (x : VarName) (n : Nat) : x.text ≠ placeholder n := by
  intro h
  have hmem : '$' ∈ x.text.toList := by
    rw [h, toList_placeholder]
    exact List.mem_cons_self
  have := VarName.isDelimiter_of_mem hmem
  cases this

/-- Atoms with the same text are the same. -/
theorem eq_of_text_eq_of_isAtom {P Q : Pattern} (hP : P.isAtom = true) (hQ : Q.isAtom = true)
    (h : P.text = Q.text) : P = Q := by
  match P, Q with
  | prim p, prim q => rw [Primitive.letter_injective h]
  | prim p, var y => exact absurd h (VarName.letter_ne_text p y)
  | prim p, hole n => exact absurd h (letter_ne_placeholder p n)
  | var x, prim q => exact absurd h.symm (VarName.letter_ne_text q x)
  | var ⟨_, _⟩, var ⟨_, _⟩ =>
      cases h
      rfl
  | var x, hole n => exact absurd h (name_ne_placeholder x n)
  | hole m, prim q => exact absurd h.symm (letter_ne_placeholder q m)
  | hole m, var y => exact absurd h.symm (name_ne_placeholder y m)
  | hole m, hole n => rw [placeholder_injective h]

/-! ## All patterns -/

/-- The characters of a written application. -/
theorem toList_text_app (l r : Pattern) :
    (app l r).text.toList = '(' :: (l.text.toList ++ ',' :: ' ' ::
      (r.text.toList ++ [')'])) := by
  simp [text]

/-- An atom and an application are written differently, whatever follows. -/
theorem text_atom_ne_text_app {P : Pattern} (hP : P.isAtom = true) (l r : Pattern)
    (p q : List Char) : P.text.toList ++ p ≠ (app l r).text.toList ++ q := by
  intro h
  obtain ⟨c, cs, hcs⟩ := List.exists_cons_of_ne_nil (text_ne_nil_of_isAtom hP)
  rw [hcs, toList_text_app, List.cons_append, List.cons_append, List.cons.injEq] at h
  have hc : c ∈ P.text.toList := by
    rw [hcs]
    exact List.mem_cons_self
  exact not_isPunctuation_of_isAtom hP c hc (.inl h.1)

/-- **A pattern and what follows it are determined by the text of both.** -/
theorem text_append_inj {P Q : Pattern} {p q : List Char} (hp : Follows p) (hq : Follows q)
    (h : P.text.toList ++ p = Q.text.toList ++ q) : P = Q ∧ p = q := by
  induction P generalizing Q p q with
  | app l r ihl ihr =>
      cases Q with
      | app l' r' =>
          simp only [toList_text_app, List.cons_append, List.append_assoc,
            List.cons.injEq, true_and] at h
          obtain ⟨rfl, hr⟩ := ihl (follows_comma _) (follows_comma _) h
          simp only [List.cons.injEq, true_and] at hr
          obtain ⟨rfl, hpq⟩ := ihr (follows_bracket _) (follows_bracket _) hr
          simp only [List.nil_append, List.cons.injEq, true_and] at hpq
          exact ⟨rfl, hpq⟩
      | _ => exact absurd h.symm (text_atom_ne_text_app rfl l r _ _)
  | _ =>
      have hQ : Q.isAtom = true := by
        cases Q with
        | app l r => exact absurd h (text_atom_ne_text_app rfl l r _ _)
        | _ => rfl
      obtain ⟨hs, hpq⟩ := append_inj_of_follows (not_isPunctuation_of_isAtom rfl)
        (not_isPunctuation_of_isAtom hQ) hp hq h
      exact ⟨eq_of_text_eq_of_isAtom rfl hQ (String.toList_inj.1 hs), hpq⟩

/-- Patterns with the same text are the same. -/
theorem text_injective : Function.Injective text := by
  intro P Q h
  have hl : P.text.toList ++ [] = Q.text.toList ++ [] := by rw [h]
  exact (text_append_inj follows_nil follows_nil hl).1

end Pattern

/-- **Terms with the same text are the same.** -/
theorem Term.script_injective : Function.Injective Term.script := by
  intro t u h
  rw [← Term.text_pattern, ← Term.text_pattern] at h
  exact Term.pattern_injective (Pattern.text_injective h)

/-- **A term and what follows it are read in one way only.**  What is written behind a term
may be empty or begin with a comma or a closing bracket; the text of both is that of another
term and what follows it only if both are the same.  So terms are told apart by their texts. -/
theorem Term.script_append_eq_iff (t u : Term) :
    (∀ p q : String, Follows p.toList → Follows q.toList →
      (t.script ++ p = u.script ++ q ↔ t = u ∧ p = q)) ∧
    (t.script = u.script ↔ t = u) := by
  refine ⟨fun p q hp hq => ⟨fun h => ?_, ?_⟩, script_injective.eq_iff⟩
  · have htext : t.pattern.text.toList ++ p.toList = u.pattern.text.toList ++ q.toList := by
      rw [text_pattern, text_pattern, ← String.toList_append, ← String.toList_append, h]
    obtain ⟨hpattern, hpq⟩ := Pattern.text_append_inj hp hq htext
    exact ⟨pattern_injective hpattern, String.toList_inj.1 hpq⟩
  · rintro ⟨rfl, rfl⟩
    rfl

/-- A name that goes on after the letter of a primitive, and one in quotes, are told from
primitives, and closing brackets that are too many are seen. -/
theorem Term.script_append_ne_of_names :
    let s : Term := var ⟨"S1", rfl⟩
    let k : Term := var ⟨"'K'", rfl⟩
    s.script ++ ", K)" ≠ S.script ++ ", K)" ∧ (app s k).script ++ ")" ≠ (app s K).script ++ ")" ∧
      (app s k).script ++ "))" ≠ (app s k).script ++ ")" := by
  intro s k
  have hcomma : Follows ", K)".toList := follows_comma _
  have hone : Follows ")".toList := follows_bracket _
  have htwo : Follows "))".toList := follows_bracket _
  obtain ⟨hs, -⟩ := script_append_eq_iff s S
  obtain ⟨hk, -⟩ := script_append_eq_iff (app s k) (app s K)
  obtain ⟨hsame, -⟩ := script_append_eq_iff (app s k) (app s k)
  refine ⟨fun h => ?_, fun h => ?_, fun h => ?_⟩
  · exact absurd ((hs _ _ hcomma hcomma).1 h).1 (by simp [s])
  · exact absurd ((hk _ _ hone hone).1 h).1 (by simp [k])
  · exact absurd ((hsame _ _ htwo hone).1 h).2 (by decide)

end Combinatory
