import Combinatory.Settings
import Mathlib.Data.List.DropRight
import Mathlib.Data.Nat.Digits.Lemmas

/-!
# How a cap is read

A cap is given as a text.  The blanks around it do not count.  What is between them is a number
if it consists of decimal digits and of nothing else: no sign stands in front, no mark and no
blank between the digits, and a character that stands for a number need not be a digit.  The
digits may be of any script, and of several in one numeral.  Zeros in front leave the value as
it is, but they count as digits, of which no more than 4300 are read.

The reading itself goes through the characters once.  Here it is compared with what a text
consists of (`Text.Trims`, `Text.Writes`) and with the value that a list of digits has in base
ten.

## Main definitions

* `Text.Trims`: a text, and what is left of it without the blanks around it.
* `Text.Writes`: a text, and the digits that it writes.
* `Text.numeralIn`: the text of digits, each in a script of its own.
* `Text.paddedDigits`: the digits of a number behind zeros.

## Main results

* `Text.strip_eq_iff`: stripping takes the blanks around a text away, and nothing else.
* `Text.digit?_eq_some_iff`: every row has each of the ten digits once.
* `Text.numeral?_eq_some_iff`: the numerals are the texts that write digits.
* `Settings.cap_of_text`: what a text is read as, and that every positive number can be read.
-/

namespace Combinatory

namespace Text

/-! ## Blanks -/

/-- Every character of a text is blank. -/
def AllBlank (s : String) : Prop := ∀ c ∈ s.toList, isBlank c = true

instance (s : String) : Decidable (AllBlank s) :=
  List.decidableBAll (fun c => isBlank c = true) s.toList

/-- A text without the blanks around it: no blank is left at an end. -/
structure Trims (raw s : String) : Prop where
  around : ∃ before after, AllBlank before ∧ AllBlank after ∧ raw = before ++ s ++ after
  first : ∀ c ∈ s.toList.head?, isBlank c = false
  last : ∀ c ∈ s.toList.getLast?, isBlank c = false

section

variable {cs before after : List Char}

/-- Nothing is dropped from a list whose first character is not blank. -/
theorem dropWhile_isBlank_eq_self (h : ∀ c ∈ cs.head?, isBlank c = false) :
    cs.dropWhile isBlank = cs := by
  cases cs with
  | nil => rfl
  | cons c cs => exact List.dropWhile_cons_of_neg (by simp [h c rfl])

/-- What stays when the blanks in front are dropped does not begin with one. -/
theorem isBlank_head?_dropWhile (cs : List Char) :
    ∀ c ∈ (cs.dropWhile isBlank).head?, isBlank c = false := by
  intro c hc
  have h := List.head?_dropWhile_not isBlank cs
  rwa [hc] at h

/-- Blanks around a list that has none at its ends are stripped from it. -/
theorem stripList_append (hbefore : ∀ c ∈ before, isBlank c = true)
    (hafter : ∀ c ∈ after, isBlank c = true) (hfirst : ∀ c ∈ cs.head?, isBlank c = false)
    (hlast : ∀ c ∈ cs.getLast?, isBlank c = false) :
    stripList (before ++ cs ++ after) = cs := by
  rw [stripList, List.append_assoc, List.dropWhile_append_of_pos hbefore]
  cases cs with
  | nil => simp [List.dropWhile_eq_nil_iff.2 hafter]
  | cons c cs =>
      have hfront : (c :: cs ++ after).dropWhile isBlank = c :: cs ++ after :=
        dropWhile_isBlank_eq_self hfirst
      have hback : (c :: cs).reverse.dropWhile isBlank = (c :: cs).reverse :=
        dropWhile_isBlank_eq_self (by rwa [List.head?_reverse])
      rw [hfront, List.reverse_append,
        List.dropWhile_append_of_pos (by simpa using hafter), hback, List.reverse_reverse]

end

/-- Stripping leaves a text without the blanks around it. -/
theorem trims_strip (raw : String) : Trims raw (strip raw) := by
  -- Of the characters behind the blanks in front, those before the blanks at the end are left.
  let rest := raw.toList.dropWhile isBlank
  have hstrip : (strip raw).toList = rest.rdropWhile isBlank := String.toList_ofList
  have hrest : rest.rdropWhile isBlank ++ rest.rtakeWhile isBlank = rest :=
    List.rdropWhile_append_rtakeWhile
  refine ⟨⟨String.ofList (raw.toList.takeWhile isBlank),
    String.ofList (rest.rtakeWhile isBlank), ?_, ?_, ?_⟩, ?_, ?_⟩
  · intro c hc
    exact List.mem_takeWhile_imp (String.toList_ofList ▸ hc)
  · intro c hc
    exact List.mem_rtakeWhile_imp (String.toList_ofList ▸ hc)
  · rw [← String.toList_inj]
    simp only [String.toList_append, String.toList_ofList, hstrip, List.append_assoc, hrest]
    exact List.takeWhile_append_dropWhile.symm
  · intro c hc
    rw [hstrip] at hc
    obtain ⟨cs, hcs⟩ := List.head?_eq_some_iff.1 hc
    have hhead : rest.head? = some c := by
      rw [← hrest, hcs]
      rfl
    exact isBlank_head?_dropWhile raw.toList c hhead
  · rw [hstrip, List.rdropWhile, List.getLast?_reverse]
    exact isBlank_head?_dropWhile rest.reverse

/-- **Stripping takes the blanks around a text away**, and nothing else. -/
theorem strip_eq_iff {raw s : String} : strip raw = s ↔ Trims raw s := by
  constructor
  · rintro rfl
    exact trims_strip raw
  · rintro ⟨⟨before, after, hbefore, hafter, rfl⟩, hfirst, hlast⟩
    rw [strip, String.toList_append, String.toList_append,
      stripList_append hbefore hafter hfirst hlast, String.ofList_toList]

/-! ## Digits -/

/-- The rows of digits stand in order and do not overlap. -/
theorem pairwise_digitZeros : digitZeros.Pairwise fun z z' => z + 10 ≤ z' := by decide +kernel

/-- No row of digits has a blank in it. -/
theorem digitZeros_apart_blanks :
    ∀ z ∈ digitZeros, ∀ r ∈ blanks, r.last < z ∨ z + 10 ≤ r.first := by
  decide +kernel

/-- Different rows of digits have no place in common. -/
theorem digitZeros_apart {z z' : Nat} (hz : z ∈ digitZeros) (hz' : z' ∈ digitZeros)
    (hne : z ≠ z') : z + 10 ≤ z' ∨ z' + 10 ≤ z := by
  have hapart : digitZeros.Pairwise fun z z' => z + 10 ≤ z' ∨ z' + 10 ≤ z :=
    pairwise_digitZeros.imp Or.inl
  have hsymm : Std.Symm fun z z' : Nat => z + 10 ≤ z' ∨ z' + 10 ≤ z := ⟨fun _ _ => Or.symm⟩
  exact hapart.forall hz hz' hne

/-- **Every row has each of the ten digits once**: the value of a digit is its distance from the
zero of its row. -/
theorem digit?_eq_some_iff {c : Char} {d : Nat} :
    digit? c = some d ↔ d < 10 ∧ ∃ z ∈ digitZeros, c.toNat = z + d := by
  constructor
  · intro h
    refine ⟨digit?_lt_ten h, ?_⟩
    obtain ⟨z, hz, rfl⟩ := Option.map_eq_some_iff.1 h
    have hrow := List.find?_some hz
    simp only [Bool.and_eq_true, decide_eq_true_eq] at hrow
    exact ⟨z, List.mem_of_find?_eq_some hz, by omega⟩
  · rintro ⟨hd, z, hz, hc⟩
    -- A row holds the character, so one is found; as rows are apart, it is this one.
    have hsome : (digitZeros.find? fun z =>
        decide (z ≤ c.toNat) && decide (c.toNat < z + 10)).isSome = true :=
      List.find?_isSome.2 ⟨z, hz, by simp [hc, hd]⟩
    obtain ⟨z', hfind⟩ := Option.isSome_iff_exists.1 hsome
    have hrow := List.find?_some hfind
    simp only [Bool.and_eq_true, decide_eq_true_eq] at hrow
    have hsame : z' = z := by
      by_contra hne
      have happart := digitZeros_apart (List.mem_of_find?_eq_some hfind) hz hne
      omega
    rw [digit?, hfind, Option.map_some, hsame, hc, Nat.add_sub_cancel_left]

/-- Every place of a row is the code point of a character. -/
theorem toNat_ofNat_of_mem_digitZeros {z d : Nat} (hz : z ∈ digitZeros) (hd : d < 10) :
    (Char.ofNat (z + d)).toNat = z + d := by
  have hplaces : ∀ z ∈ digitZeros, z + 10 ≤ 0xD800 ∨ 0xE000 ≤ z ∧ z + 10 ≤ 0x110000 := by
    decide +kernel
  have hvalid : (z + d).isValidChar := by
    rcases hplaces z hz with hlow | ⟨hfirst, hlast⟩
    · exact .inl (by omega)
    · exact .inr ⟨by omega, by omega⟩
  rw [Char.ofNat, dif_pos hvalid]
  rfl

/-- A digit is not blank. -/
theorem isBlank_of_digit? {c : Char} {d : Nat} (h : digit? c = some d) : isBlank c = false := by
  obtain ⟨hd, z, hz, hc⟩ := digit?_eq_some_iff.1 h
  rw [isBlank, Bool.eq_false_iff]
  intro hblank
  obtain ⟨r, hr, hfirst, hlast⟩ := (CodeRange.anyContains_iff blanks c).1 hblank
  have happart := digitZeros_apart_blanks z hz r hr
  omega

/-! ## Numerals -/

/-- A text writes digits, the most significant in front: its characters are decimal digits of
these values, each of whatever script. -/
def Writes (s : String) (ds : List Nat) : Prop := s.toList.map digit? = ds.map some

instance (s : String) (ds : List Nat) : Decidable (Writes s ds) :=
  inferInstanceAs (Decidable (s.toList.map digit? = ds.map some))

/-- The text of digits, each in the script whose zero is given for it. -/
def numeralIn (rows ds : List Nat) : String :=
  String.ofList (List.zipWith (fun z d => Char.ofNat (z + d)) rows ds)

/-- The digits of a number, the most significant in front, behind as many zeros as are asked
for. -/
def paddedDigits (zeros n : Nat) : List Nat :=
  List.replicate zeros 0 ++ (Nat.digits 10 n).reverse

theorem lt_ten_of_mem_paddedDigits {zeros n d : Nat} (hd : d ∈ paddedDigits zeros n) :
    d < 10 := by
  rcases List.mem_append.1 hd with hd | hd
  · obtain ⟨-, rfl⟩ := List.mem_replicate.1 hd
    decide
  · exact Nat.digits_lt_base (by decide) (List.mem_reverse.1 hd)

/-- Zeros in front leave the value as it is. -/
theorem ofDigits_reverse_paddedDigits (zeros n : Nat) :
    Nat.ofDigits 10 (paddedDigits zeros n).reverse = n := by
  rw [paddedDigits, List.reverse_append, List.reverse_reverse, List.reverse_replicate,
    Nat.ofDigits_append_replicate_zero, Nat.ofDigits_digits]

section

variable {s : String} {ds ds' rows : List Nat}

/-- **Digits can be written in any scripts.** -/
theorem writes_numeralIn (hrows : ∀ z ∈ rows, z ∈ digitZeros) (hds : ∀ d ∈ ds, d < 10)
    (hlength : rows.length = ds.length) : Writes (numeralIn rows ds) ds := by
  rw [Writes, numeralIn, String.toList_ofList]
  induction rows generalizing ds with
  | nil =>
      obtain rfl := List.length_eq_zero_iff.1 hlength.symm
      rfl
  | cons z rows ih =>
      cases ds with
      | nil => cases hlength
      | cons d ds =>
          have hd : d < 10 := hds d List.mem_cons_self
          have hz : z ∈ digitZeros := hrows z List.mem_cons_self
          have hdigit : digit? (Char.ofNat (z + d)) = some d :=
            digit?_eq_some_iff.2 ⟨hd, z, hz, toNat_ofNat_of_mem_digitZeros hz hd⟩
          have hrest := ih (fun z hz => hrows z (List.mem_cons_of_mem _ hz))
            (fun d hd => hds d (List.mem_cons_of_mem _ hd)) (Nat.succ.inj hlength)
          rw [List.zipWith_cons_cons, List.map_cons, List.map_cons, hdigit, hrest]

-- An Arabic zero, a Bengali four and a wide two.
example : Writes "\u0660\u09ea\uff12" [0, 4, 2] := by decide

theorem Writes.length_eq (h : Writes s ds) : s.length = ds.length := by
  rw [← String.length_toList, ← List.length_map, h, List.length_map]

/-- A text writes one list of digits at most. -/
theorem Writes.unique (h : Writes s ds) (h' : Writes s ds') : ds = ds' :=
  List.map_injective_iff.2 (Option.some_injective Nat) (h.symm.trans h')

/-- Of a text that writes digits, something holds for some digits that it writes if it holds for
these. -/
theorem Writes.exists_and_iff (h : Writes s ds) {P : List Nat → Prop} :
    (∃ ds', Writes s ds' ∧ P ds') ↔ P ds :=
  ⟨fun ⟨_, h', hP⟩ => h'.unique h ▸ hP, fun hP => ⟨ds, h, hP⟩⟩

/-- Of a text that writes digits, something holds for all digits that it writes if it holds for
these. -/
theorem Writes.forall_iff (h : Writes s ds) {P : List Nat → Prop} :
    (∀ ds', Writes s ds' → P ds') ↔ P ds :=
  ⟨fun hall => hall ds h, fun hP _ h' => h'.unique h ▸ hP⟩

/-- Every character of a text that writes digits is one. -/
theorem Writes.exists_digit (h : Writes s ds) {c : Char} (hc : c ∈ s.toList) :
    ∃ d, digit? c = some d := by
  have hmem : digit? c ∈ ds.map some := h ▸ List.mem_map_of_mem hc
  obtain ⟨d, -, hd⟩ := List.mem_map.1 hmem
  exact ⟨d, hd.symm⟩

/-- Blanks around digits are all that can be stripped. -/
theorem Writes.trims {before after : String} (h : Writes s ds) (hbefore : AllBlank before)
    (hafter : AllBlank after) : Trims (before ++ s ++ after) s := by
  have hdigits : ∀ c ∈ s.toList, isBlank c = false := fun c hc =>
    have ⟨_, hd⟩ := h.exists_digit hc
    isBlank_of_digit? hd
  exact ⟨⟨before, after, hbefore, hafter, rfl⟩,
    fun c hc => hdigits c (List.mem_of_mem_head? hc),
    fun c hc => hdigits c (List.mem_of_mem_getLast? hc)⟩

/-- The characters of a text are read as the digits that it writes. -/
theorem mapM_digit?_eq_some_iff : s.toList.mapM digit? = some ds ↔ Writes s ds := by
  rw [Writes]
  generalize s.toList = cs
  induction cs generalizing ds with
  | nil => cases ds <;> simp
  | cons c cs ih =>
      cases ds <;> simp [← ih, Option.bind_eq_some_iff]

/-- Digits have their value in base ten. -/
theorem ofDigits_eq (ds : List Nat) : ofDigits ds = Nat.ofDigits 10 ds.reverse := by
  induction ds using List.reverseRecOn with
  | nil => rfl
  | append_singleton ds d ih =>
      have hlast : ofDigits (ds ++ [d]) = appendDigit (ofDigits ds) d := List.foldl_concat ..
      rw [hlast, ih, appendDigit, List.reverse_append, List.reverse_singleton,
        List.singleton_append, Nat.ofDigits_cons, Nat.add_comm]

/-- **The numerals are the texts that write digits**, at least one. -/
theorem numeral?_eq_some_iff {n : Nat} :
    numeral? s = some n ↔ ∃ ds, ds ≠ [] ∧ Writes s ds ∧ Nat.ofDigits 10 ds.reverse = n := by
  have hempty : ∀ {ds}, Writes s ds → (s = "" ↔ ds = []) := fun h => by
    rw [← String.length_eq_zero_iff, h.length_eq, List.length_eq_zero_iff]
  rw [numeral?]
  split
  · rename_i hs
    have hs' : s = "" := String.isEmpty_iff.1 hs
    simp only [reduceCtorEq, false_iff]
    rintro ⟨ds, hds, hwrites, -⟩
    exact hds ((hempty hwrites).1 hs')
  · rename_i hs
    have hs' : s ≠ "" := fun h => hs (String.isEmpty_iff.2 h)
    simp only [Option.map_eq_some_iff, mapM_digit?_eq_some_iff, ofDigits_eq]
    exact ⟨fun ⟨ds, hwrites, hn⟩ => ⟨ds, mt (hempty hwrites).2 hs', hwrites, hn⟩,
      fun ⟨ds, _, hwrites, hn⟩ => ⟨ds, hwrites, hn⟩⟩

/-- A text is no numeral if it writes no digits, or none at all. -/
theorem numeral?_eq_none_iff : numeral? s = none ↔ ∀ ds, Writes s ds → ds = [] := by
  rw [Option.eq_none_iff_forall_ne_some]
  constructor
  · intro h ds hwrites
    by_contra hds
    exact h _ (numeral?_eq_some_iff.2 ⟨ds, hds, hwrites, rfl⟩)
  · intro h n hn
    obtain ⟨ds, hds, hwrites, -⟩ := numeral?_eq_some_iff.1 hn
    exact hds (h ds hwrites)

end

end Text

/-! ## Caps -/

namespace Settings

open Text

section

variable {raw : String} {ds : List Nat}

/-- Digits between blanks are read as their value, if there are not too many, and zero as no
cap. -/
theorem readCap_of_writes (h : Writes (strip raw) ds) :
    readCap raw =
      if 4300 < ds.length then .error (.numeralTooLong ds.length)
      else .ok (if Nat.ofDigits 10 ds.reverse = 0 then none
        else some (Nat.ofDigits 10 ds.reverse)) := by
  rw [readCap]
  by_cases hds : ds = []
  · -- No digit at all is no numeral, and its value would be zero.
    have hnone : numeral? (strip raw) = none :=
      numeral?_eq_none_iff.2 fun _ h' => (h'.unique h).trans hds
    simp [hnone, hds]
  · have hsome : numeral? (strip raw) = some (Nat.ofDigits 10 ds.reverse) :=
      numeral?_eq_some_iff.2 ⟨ds, hds, h, rfl⟩
    simp only [hsome, h.length_eq, longestNumeral]

/-- What does not consist of digits is no cap. -/
theorem readCap_of_not_writes (h : ∀ ds, ¬ Writes (strip raw) ds) : readCap raw = .ok none := by
  have hnone : numeral? (strip raw) = none :=
    numeral?_eq_none_iff.2 fun ds h' => absurd h' (h ds)
  simp [readCap, hnone]

/-- A cap is refused for the number of its digits, and for nothing else. -/
theorem readCap_eq_error_iff {fault : Fault} :
    readCap raw = .error fault ↔
      ∃ ds, Writes (strip raw) ds ∧ 4300 < ds.length ∧ fault = .numeralTooLong ds.length := by
  by_cases h : ∃ ds, Writes (strip raw) ds
  · obtain ⟨ds, hds⟩ := h
    rw [readCap_of_writes hds, hds.exists_and_iff]
    grind
  · have hnot := not_exists.1 h
    simp [readCap_of_not_writes hnot, hnot]

/-- A cap is the value of its digits, if they are not too many and the value is not zero. -/
theorem readCap_eq_some_iff {n : Nat} :
    readCap raw = .ok (some n) ↔
      ∃ ds, Writes (strip raw) ds ∧
        ds.length ≤ 4300 ∧ Nat.ofDigits 10 ds.reverse = n ∧ 0 < n := by
  by_cases h : ∃ ds, Writes (strip raw) ds
  · obtain ⟨ds, hds⟩ := h
    rw [readCap_of_writes hds, hds.exists_and_iff]
    grind
  · have hnot := not_exists.1 h
    simp [readCap_of_not_writes hnot, hnot]

/-- There is no cap where there are no digits, and where their value is zero. -/
theorem readCap_eq_none_iff :
    readCap raw = .ok none ↔
      ∀ ds, Writes (strip raw) ds → ds.length ≤ 4300 ∧ Nat.ofDigits 10 ds.reverse = 0 := by
  by_cases h : ∃ ds, Writes (strip raw) ds
  · obtain ⟨ds, hds⟩ := h
    rw [readCap_of_writes hds, hds.forall_iff]
    grind
  · have hnot := not_exists.1 h
    simp [readCap_of_not_writes hnot, hnot]

/-- A positive number is read as itself, whatever the zeros in front of it, the scripts of its
digits and the blanks around them. -/
theorem readCap_numeralIn {before after : String} {rows : List Nat} {zeros n : Nat}
    (hn : 0 < n) (hbefore : AllBlank before) (hafter : AllBlank after)
    (hrows : ∀ z ∈ rows, z ∈ digitZeros) (hlength : rows.length = (paddedDigits zeros n).length)
    (hshort : (paddedDigits zeros n).length ≤ 4300) :
    readCap (before ++ numeralIn rows (paddedDigits zeros n) ++ after) = .ok (some n) := by
  have hwrites := writes_numeralIn hrows (fun _ => lt_ten_of_mem_paddedDigits) hlength
  have hstrip := strip_eq_iff.2 (hwrites.trims hbefore hafter)
  exact readCap_eq_some_iff.2
    ⟨_, hstrip.symm ▸ hwrites, hshort, ofDigits_reverse_paddedDigits zeros n, hn⟩

/-- A cap that is refused is a fault of the settings, and the only one. -/
theorem read_eq_error_iff {scope : Option String} {fault : Fault} :
    read scope (some raw) = .error fault ↔ readCap raw = .error fault := by
  rw [read, Option.getD_some]
  cases readCap raw <;> simp [bind, Except.bind, pure, Except.pure]

/-- The settings hold the cap that was read. -/
theorem read_eq_ok_iff {scope : Option String} {cap : Option Nat} :
    read scope (some raw) = .ok ⟨scope.getD Scope.call.name, cap⟩ ↔ readCap raw = .ok cap := by
  rw [read, Option.getD_some]
  cases readCap raw <;> simp [bind, Except.bind, pure, Except.pure]

end

/-- **What the text of a cap is read as.**  Let `s` be the text without the blanks around it.
The settings are refused exactly if `s` consists of decimal digits only and has more than 4300
of them; the cap is `n` exactly if `s` consists of at most 4300 digits whose value `n` is
positive; and otherwise there is none.  So every positive number is read as itself, with zeros
in front and blanks around it or without, when it is written with at most 4300 digits of any
scripts. -/
theorem cap_of_text (scope : Option String) (raw : String) :
    let name := scope.getD Scope.call.name
    (∃ s, Trims raw s ∧
      (∀ fault, read scope (some raw) = .error fault ↔
        ∃ ds, Writes s ds ∧ 4300 < ds.length ∧ fault = .numeralTooLong ds.length) ∧
      (∀ n, read scope (some raw) = .ok ⟨name, some n⟩ ↔
        ∃ ds, Writes s ds ∧ ds.length ≤ 4300 ∧ Nat.ofDigits 10 ds.reverse = n ∧ 0 < n) ∧
      (read scope (some raw) = .ok ⟨name, none⟩ ↔
        ∀ ds, Writes s ds → ds.length ≤ 4300 ∧ Nat.ofDigits 10 ds.reverse = 0)) ∧
    ∀ before after rows zeros n, 0 < n → AllBlank before → AllBlank after →
      (∀ z ∈ rows, z ∈ digitZeros) → rows.length = (paddedDigits zeros n).length →
      (paddedDigits zeros n).length ≤ 4300 →
      raw = before ++ numeralIn rows (paddedDigits zeros n) ++ after →
      read scope (some raw) = .ok ⟨name, some n⟩ := by
  intro name
  refine ⟨⟨strip raw, trims_strip raw, fun fault => ?_, fun n => ?_, ?_⟩, ?_⟩
  · exact read_eq_error_iff.trans readCap_eq_error_iff
  · exact read_eq_ok_iff.trans readCap_eq_some_iff
  · exact read_eq_ok_iff.trans readCap_eq_none_iff
  · rintro before after rows zeros n hn hbefore hafter hrows hlength hshort rfl
    exact read_eq_ok_iff.2 (readCap_numeralIn hn hbefore hafter hrows hlength hshort)

/-- Digits of three scripts with a zero in front, between a tabulator and a wide space; a mark
between digits; and zeros that are too many. -/
theorem cap_of_text_of_scripts :
    let zeros := String.ofList (List.replicate 4301 '0')
    read none (some "\t\u0660\u09ea\uff12\u3000") = .ok ⟨"call", some 42⟩ ∧
      read none (some "1_0") = .ok ⟨"call", none⟩ ∧
      read none (some (" " ++ zeros ++ " ")) = .error (.numeralTooLong 4301) := by
  intro zeros
  refine ⟨?_, ?_, ?_⟩
  · obtain ⟨-, hread⟩ := cap_of_text none "\t\u0660\u09ea\uff12\u3000"
    have hdigits : paddedDigits 1 42 = [0, 4, 2] := by simp [paddedDigits]
    refine hread "\t" "\u3000" [0x660, 0x9E6, 0xFF10] 1 42 (by decide) (by decide) (by decide)
      (by decide) ?_ ?_ ?_ <;> rw [hdigits]
    all_goals decide
  · obtain ⟨⟨s, hs, -, -, hnone⟩, -⟩ := cap_of_text none "1_0"
    have hs' : s = "1_0" := (strip_eq_iff.2 hs).symm.trans (by decide)
    refine hnone.2 fun ds hwrites => ?_
    obtain ⟨d, hd⟩ := hwrites.exists_digit (by rw [hs']; decide : '_' ∈ s.toList)
    cases hd
  · obtain ⟨⟨s, hs, herror, -, -⟩, -⟩ := cap_of_text none (" " ++ zeros ++ " ")
    have hwrites : Writes zeros (List.replicate 4301 0) := by
      rw [Writes, String.toList_ofList, List.map_replicate, List.map_replicate]
      rfl
    have hzeros : Trims (" " ++ zeros ++ " ") zeros := hwrites.trims (by decide) (by decide)
    have hs' : s = zeros := (strip_eq_iff.2 hs).symm.trans (strip_eq_iff.2 hzeros)
    have hlength : (List.replicate 4301 0).length = 4301 := List.length_replicate
    exact (herror _).2 ⟨_, hs' ▸ hwrites, by rw [hlength]; decide, by rw [hlength]⟩

end Settings

end Combinatory
