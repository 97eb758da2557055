import Mathlib.Data.List.Nodup
import Combinatory.Proofs.Matching

/-!
# Restoration of signatures

A signature loses nothing: where each placeholder in its text is replaced by the text of the
term that is bound to it, the text of the whole term comes out.  The placeholders are found by
going through the text once, from left to right; a dollar sign begins one, and it goes on as
long as there are digits.  This finds them all, since no name has a dollar sign in it, and finds
nothing else, since behind a placeholder stands a comma or a bracket.

## Main definitions

* `Lexeme`, `Lexeme.scan`: what a text is read as.
* `Signature.boundTo`: the term that is bound to the text of a placeholder.
* `Signature.restore`: the text with its placeholders replaced.
* `Pattern.lexemes`, `Pattern.holes`: what the text of a pattern is read as, and its holes.

## Main results

* `Pattern.scan_text`: a pattern is read as its characters and its holes.
* `Term.fill_unfold`, `Term.holes_unfold`: an unfolded term has every hole once, and filling them
  gives the term.
* `Signature.restores_script`: restoring gives the text of the term, and so the term.
-/

namespace Combinatory

/-- What is read from the text of a signature: a character that stands for itself, or the text of
a placeholder. -/
inductive Lexeme
  | char (c : Char)
  | token (key : String)
deriving DecidableEq

namespace Lexeme

/-- A text of which each character stands for itself. -/
def chars (s : String) : List Lexeme := s.toList.map .char

/-- Read a text from left to right.  A dollar sign begins a token, and the digits behind it belong
to the token. -/
def scan : List Char → List Lexeme
  | [] => []
  | c :: rest =>
      if c = '$' then
        .token (String.ofList ('$' :: rest.takeWhile Char.isDigit)) ::
          scan (rest.dropWhile Char.isDigit)
      else .char c :: scan rest
termination_by cs => cs.length
decreasing_by
  · exact Nat.lt_succ_of_le (List.dropWhile_sublist _).length_le
  · exact Nat.lt_succ_self _

@[simp] theorem scan_nil : scan [] = [] := by
  rw [scan]

/-- Characters other than the dollar sign stand for themselves. -/
theorem scan_chars {s : String} (h : '$' ∉ s.toList) (rest : List Char) :
    scan (s.toList ++ rest) = chars s ++ scan rest := by
  rw [chars]
  generalize s.toList = cs at h
  induction cs with
  | nil => rfl
  | cons c cs ih =>
      have hc : c ≠ '$' := fun heq => h (heq ▸ List.mem_cons_self)
      rw [List.cons_append, scan, if_neg hc, ih fun hmem => h (List.mem_cons_of_mem c hmem)]
      rfl

/-- A text that may stand behind a name does not begin with a digit. -/
theorem takeWhile_isDigit_of_follows {p : List Char} (h : Follows p) :
    p.takeWhile Char.isDigit = [] ∧ p.dropWhile Char.isDigit = p := by
  cases p with
  | nil => exact ⟨rfl, rfl⟩
  | cons c p =>
      have hc : c.isDigit = false := by
        rcases h c rfl with rfl | rfl <;> rfl
      simp [hc]

/-- A placeholder is read as a token, if nothing behind it could belong to it. -/
theorem scan_placeholder (number : Nat) {rest : List Char} (h : Follows rest) :
    scan ((placeholder number).toList ++ rest) = .token (placeholder number) :: scan rest := by
  have hdigits : ∀ c ∈ Nat.toDigits 10 number, c.isDigit = true := fun c hc =>
    Nat.isDigit_of_mem_toDigits (by decide) (by decide) hc
  obtain ⟨htake, hdrop⟩ := takeWhile_isDigit_of_follows h
  have hkey : String.ofList ('$' :: Nat.toDigits 10 number) = placeholder number := by
    rw [← toList_placeholder, String.ofList_toList]
  rw [toList_placeholder, List.cons_append, scan, if_pos rfl,
    List.takeWhile_append_of_pos hdigits, List.dropWhile_append_of_pos hdigits, htake, hdrop,
    List.append_nil, hkey]

end Lexeme

open Lexeme

/-! ## Patterns as they are read -/

namespace Pattern

/-- What the text of a pattern is read as. -/
def lexemes : Pattern → List Lexeme
  | prim p => chars p.letter
  | var x => chars x.text
  | hole number => [.token (placeholder number)]
  | app l r => chars "(" ++ l.lexemes ++ chars ", " ++ r.lexemes ++ chars ")"

/-- The numbers of the holes, in the order of the text. -/
def holes : Pattern → List Nat
  | hole number => [number]
  | app l r => l.holes ++ r.holes
  | _ => []

/-- Filling depends on the holes only. -/
theorem fill_congr {arg arg' : Nat → Term} {P : Pattern}
    (h : ∀ number ∈ P.holes, arg number = arg' number) : P.fill arg = P.fill arg' := by
  induction P with
  | prim p => rfl
  | var x => rfl
  | hole number => exact h number List.mem_cons_self
  | app l r ihl ihr =>
      rw [fill, fill, ihl fun number hn => h number (List.mem_append_left _ hn),
        ihr fun number hn => h number (List.mem_append_right _ hn)]

/-- **A pattern is read as its characters and its holes**, if nothing behind it could belong to
it. -/
theorem scan_text (P : Pattern) {rest : List Char} (h : Follows rest) :
    scan (P.text.toList ++ rest) = P.lexemes ++ scan rest := by
  induction P generalizing rest with
  | prim p => exact scan_chars (by cases p <;> decide) rest
  | var x =>
      -- A dollar sign is one of the marks that no name has in it.
      refine scan_chars (fun hmem => ?_) rest
      have hdelimiter := VarName.isDelimiter_of_mem hmem
      cases hdelimiter
  | hole number => exact scan_placeholder number h
  | app l r ihl ihr =>
      have hcomma (cs : List Char) : Follows (", ".toList ++ cs) := follows_comma _
      have hbracket (cs : List Char) : Follows (")".toList ++ cs) := follows_bracket _
      simp only [text, String.toList_append, lexemes, List.append_assoc]
      rw [scan_chars (by decide), ihl (hcomma _), scan_chars (by decide), ihr (hbracket _),
        scan_chars (by decide)]

/-- A placeholder is read as often as its number is that of a hole. -/
theorem count_token_lexemes (P : Pattern) (number : Nat) :
    P.lexemes.count (.token (placeholder number)) = P.holes.count number := by
  have hchars : ∀ s, (chars s).count (.token (placeholder number)) = 0 :=
    fun s => List.count_eq_zero.2 (by simp [chars])
  induction P with
  | prim p => exact hchars _
  | var x => exact hchars _
  | hole number' =>
      have hsame : placeholder number' = placeholder number ↔ number' = number :=
        ⟨placeholder_injective, congrArg placeholder⟩
      simp [lexemes, holes, List.count_singleton, hsame]
  | app l r ihl ihr => simp [lexemes, holes, hchars, ihl, ihr]

end Pattern

/-! ## Unfolded terms -/

namespace Term

/-- **Every hole of an unfolded term occurs once**, and they are numbered in the order of the
text. -/
theorem holes_unfold (t : Term) (k : Nat) :
    (t.unfold k).1.holes = List.range' 1 (t.unfold k).2.length := by
  induction t generalizing k with
  | prim p => cases k <;> rfl
  | var x => cases k <;> rfl
  | app l r ihl ihr =>
      cases k with
      | zero => rfl
      | succ k =>
          simp only [unfold, Pattern.holes, ihl, List.length_append, List.length_singleton,
            List.range'_1_concat, Nat.add_comm 1]

/-- An argument keeps its number when another is put behind. -/
theorem argument_append_left {args : List Term} {number : Nat} (h : 1 ≤ number)
    (hn : number ≤ args.length) (r : Term) :
    argument (args ++ [r]) number = argument args number := by
  have hlt : number - 1 < args.length := by omega
  simp [argument, List.getElem?_append_left hlt]

/-- **Filling the holes of an unfolded term gives the term.** -/
theorem fill_unfold (t : Term) (k : Nat) :
    (t.unfold k).1.fill (argument (t.unfold k).2) = t := by
  induction t generalizing k with
  | prim p => cases k <;> rfl
  | var x => cases k <;> rfl
  | app l r ihl ihr =>
      cases k with
      | zero => rfl
      | succ k =>
          -- The holes on the left have the numbers of the arguments there, so that the last
          -- argument fills none of them.
          have hleft : (l.unfold k).1.fill (argument ((l.unfold k).2 ++ [r])) = l := by
            refine (Pattern.fill_congr fun number hn => ?_).trans (ihl k)
            rw [holes_unfold, List.mem_range'_1] at hn
            exact argument_append_left hn.1 (by omega) r
          have hright : argument ((l.unfold k).2 ++ [r]) ((l.unfold k).2.length + 1) = r := by
            simp [argument]
          simp only [unfold, Pattern.fill, hleft, hright]

end Term

/-! ## Restoring -/

namespace Signature

open Term

/-- The bindings, under the texts of their placeholders. -/
def placeholders (σ : Signature) : List (String × Term) :=
  σ.bound.map fun binding => (placeholder binding.1, binding.2)

/-- The term that is bound to the text of a placeholder. -/
def boundTo (σ : Signature) (key : String) : Option Term := σ.placeholders.lookup key

/-- The text that a piece of the text stands for; a token that is not bound stands for none. -/
def restoreLexeme (σ : Signature) : Lexeme → Option String
  | .char c => some (String.singleton c)
  | .token key => (σ.boundTo key).map script

/-- The text of the signature with each placeholder replaced by the text of the term bound to
it. -/
def restore (σ : Signature) : Option String :=
  ((scan σ.text.toList).mapM σ.restoreLexeme).map String.join

/-- Pieces of the text of a signature stand for a text. -/
def Restores (σ : Signature) (pieces : List Lexeme) (s : String) : Prop :=
  ∃ texts, pieces.mapM σ.restoreLexeme = some texts ∧ String.join texts = s

section

variable {σ : Signature} {pieces pieces' : List Lexeme} {s s' : String}

theorem restore_eq_some_iff :
    σ.restore = some s ↔ Restores σ (scan σ.text.toList) s :=
  Option.map_eq_some_iff

theorem Restores.append (h : Restores σ pieces s) (h' : Restores σ pieces' s') :
    Restores σ (pieces ++ pieces') (s ++ s') := by
  obtain ⟨texts, htexts, rfl⟩ := h
  obtain ⟨texts', htexts', rfl⟩ := h'
  exact ⟨texts ++ texts', by simp [List.mapM_append, htexts, htexts'], String.join_append⟩

/-- A character stands for itself. -/
theorem restores_char (σ : Signature) (c : Char) : Restores σ [.char c] (String.singleton c) :=
  ⟨[String.singleton c], by simp [restoreLexeme], by simp⟩

/-- A text without placeholders stands for itself. -/
theorem restores_chars (σ : Signature) (s : String) : Restores σ (chars s) s := by
  rw [← String.ofList_toList (s := s), chars, String.toList_ofList]
  generalize s.toList = cs
  induction cs with
  | nil => exact ⟨[], rfl, rfl⟩
  | cons c cs ih =>
      have hcons : String.ofList (c :: cs) = String.singleton c ++ String.ofList cs := by
        rw [← String.toList_inj]
        simp
      rw [hcons]
      exact (restores_char σ c).append ih

/-- A token stands for the text of the term bound to it. -/
theorem restores_token {key : String} {t : Term} (h : σ.boundTo key = some t) :
    Restores σ [.token key] t.script :=
  ⟨[t.script], by simp [restoreLexeme, h], by simp⟩

/-- **A pattern stands for the term that comes of filling its holes** with what is bound to
them. -/
theorem restores_lexemes {arg : Nat → Term} {P : Pattern}
    (h : ∀ number ∈ P.holes, σ.boundTo (placeholder number) = some (arg number)) :
    Restores σ P.lexemes (P.fill arg).script := by
  induction P with
  | prim p =>
      rw [Pattern.fill, script_prim]
      exact restores_chars σ p.letter
  | var x =>
      rw [Pattern.fill, script_var]
      exact restores_chars σ x.text
  | hole number => exact restores_token (h number List.mem_cons_self)
  | app l r ihl ihr =>
      have hl := ihl fun number hn => h number (List.mem_append_left _ hn)
      have hr := ihr fun number hn => h number (List.mem_append_right _ hn)
      rw [Pattern.fill, script_app]
      exact ((((restores_chars σ "(").append hl).append (restores_chars σ ", ")).append hr).append
        (restores_chars σ ")")

end

/-- What is looked up under the text of a placeholder is what is bound to its number. -/
theorem lookup_placeholder (bound : List (Nat × Term)) (number : Nat) :
    (bound.map fun binding => (placeholder binding.1, binding.2)).lookup (placeholder number) =
      bound.lookup number := by
  induction bound with
  | nil => rfl
  | cons binding rest ih =>
      have hsame : (placeholder number == placeholder binding.1) = (number == binding.1) := by
        rw [Bool.eq_iff_iff, beq_iff_eq, beq_iff_eq]
        exact ⟨placeholder_injective, congrArg placeholder⟩
      rw [List.map_cons, List.lookup_cons, List.lookup_cons, hsame, ih]

/-- A placeholder that is bound has the argument of its number. -/
theorem boundTo_ofBindings {text : String} {args : List Term} {number : Nat} (h : 1 ≤ number)
    (hn : number ≤ args.length) :
    (ofBindings text args).boundTo (placeholder number) = some (argument args number) := by
  rw [boundTo, placeholders, lookup_placeholder, lookup_ofBindings h hn]

/-- **An unfolded term stands for the term**, where its holes are bound to what is in them. -/
theorem restores_unfold (text : String) (t : Term) (k : Nat) :
    Restores (ofBindings text (t.unfold k).2) (t.unfold k).1.lexemes t.script := by
  have hfilled : Restores (ofBindings text (t.unfold k).2) (t.unfold k).1.lexemes
      ((t.unfold k).1.fill (argument (t.unfold k).2)).script := by
    refine restores_lexemes fun number hn => ?_
    rw [holes_unfold, List.mem_range'_1] at hn
    exact boundTo_ofBindings hn.1 (by omega)
  rwa [fill_unfold] at hfilled

/-- The texts of two signatures that bind the same are restored alike. -/
theorem restore_congr {σ σ' : Signature} (htext : σ'.text = σ.text)
    (hbound : ∀ key, σ'.boundTo key = σ.boundTo key) : σ'.restore = σ.restore := by
  have hlexeme : σ'.restoreLexeme = σ.restoreLexeme := by
    funext piece
    cases piece with
    | char c => rfl
    | token key => rw [restoreLexeme, restoreLexeme, hbound]
  rw [restore, restore, htext, hlexeme]

section

variable {l r : Term} {d : Nat} {σ : Signature}

/-- The text of a signature is read as the unfolded term. -/
theorem scan_of_extract (h : extract (app l r) d = .ok σ) :
    scan σ.text.toList = ((app l r).unfold (d + 1)).1.lexemes := by
  rw [extract_app] at h
  cases h
  have hscan := Pattern.scan_text ((app l r).unfold (d + 1)).1 follows_nil
  rwa [List.append_nil, scan_nil, List.append_nil] at hscan

/-- **Restoring the signature of a term gives the text of the term.** -/
theorem restore_of_extract (h : extract (app l r) d = .ok σ) :
    σ.restore = some (app l r).script := by
  rw [restore_eq_some_iff, scan_of_extract h]
  rw [extract_app] at h
  cases h
  exact restores_unfold _ (app l r) (d + 1)

/-- **Each placeholder that is bound occurs once in the text.** -/
theorem count_token_of_extract (h : extract (app l r) d = .ok σ) {binding : Nat × Term}
    (hb : binding ∈ σ.bound) :
    (scan σ.text.toList).count (.token (placeholder binding.1)) = 1 := by
  rw [scan_of_extract h, Pattern.count_token_lexemes, holes_unfold]
  rw [extract_app] at h
  cases h
  obtain ⟨i, hi, rfl⟩ := List.mem_mapIdx.1 hb
  refine List.count_eq_one_of_mem List.nodup_range' (List.mem_range'_1.2 ?_)
  omega

end

/-- **A signature loses nothing.**  At every depth, the text of the term comes out where the
placeholders in the text of its signature are replaced by the texts of the terms bound to them,
and each placeholder that is bound occurs once.  So terms with the same text and the same
bindings in their signatures, taken at whatever depths, are the same. -/
theorem restores_script (l r : Term) (d : Nat) :
    ∃ σ, extract (app l r) d = .ok σ ∧ σ.restore = some (app l r).script ∧
      (∀ binding ∈ σ.bound,
        (scan σ.text.toList).count (.token (placeholder binding.1)) = 1) ∧
      ∀ (l' r' : Term) (d' : Nat) (σ' : Signature), extract (app l' r') d' = .ok σ' →
        σ'.text = σ.text → (∀ key, σ'.boundTo key = σ.boundTo key) → app l' r' = app l r := by
  have hextract := extract_app l r d
  refine ⟨_, hextract, restore_of_extract hextract,
    fun binding hb => count_token_of_extract hextract hb, ?_⟩
  intro l' r' d' σ' hextract' htext hbound
  have hrestore := restore_congr htext hbound
  rw [restore_of_extract hextract', restore_of_extract hextract] at hrestore
  exact script_injective (Option.some.inj hrestore)

/-- A name that is a digit, in a signature that is the same at two depths; and another term with
the same text for its signature, which therefore has other bindings. -/
theorem restores_script_of_digit :
    let x := var ⟨"1", rfl⟩
    let t := app (app S x) x
    let σ : Signature := ⟨"((S, $1), $2)", [(1, x), (2, x)]⟩
    let τ : Signature := ⟨"((S, $1), $2)", [(1, x), (2, K)]⟩
    extract t 1 = .ok σ ∧ extract t 4 = .ok σ ∧ σ.restore = some "((S, 1), 1)" ∧
      (scan σ.text.toList).count (.token "$1") = 1 ∧
      extract (app (app S x) K) 1 = .ok τ ∧ ¬ ∀ key, τ.boundTo key = σ.boundTo key := by
  intro x t σ τ
  have htext : (Pattern.app (.app (.prim .S) (.hole 1)) (.hole 2)).text = "((S, $1), $2)" := rfl
  have hσ : ofBindings _ [x, x] = σ := congrArg (ofBindings · [x, x]) htext
  have hτ : ofBindings _ [x, K] = τ := congrArg (ofBindings · [x, K]) htext
  have hone : extract t 1 = .ok σ := (extract_app (app S x) x 1).trans (congrArg Except.ok hσ)
  have hfour : extract t 4 = .ok σ := (extract_app (app S x) x 4).trans (congrArg Except.ok hσ)
  have hother : extract (app (app S x) K) 1 = .ok τ :=
    (extract_app (app S x) K 1).trans (congrArg Except.ok hτ)
  have hscript : t.script = "((S, 1), 1)" := by
    simp only [t, x, script_app, script_var, script_prim]
    rfl
  obtain ⟨σ', hextract, hrestore, hcount, hsame⟩ := restores_script (app S x) x 1
  obtain rfl : σ = σ' := Except.ok.inj (hone.symm.trans hextract)
  refine ⟨hone, hfour, hscript ▸ hrestore, ?_, hother, fun hbound => ?_⟩
  · have hkey : placeholder 1 = "$1" := rfl
    exact hkey ▸ hcount (1, x) List.mem_cons_self
  · have hargument : K = var ⟨"1", rfl⟩ := (app.inj (hsame (app S x) K 1 τ hother rfl hbound)).2
    cases hargument

end Signature

end Combinatory
