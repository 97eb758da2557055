import Combinatory.Proofs.Firing
import Combinatory.Proofs.Readability
import Combinatory.Proofs.Repeats
import Mathlib.Data.Fintype.EquivFin

/-!
# What the guard breaks, and what it does not

Suppose that a normalization, under whatever limit, fires at redexes of finitely many
renderings only.  A call then either keeps the guard or enters one of these renderings
into it, so that the guard changes finitely often below the normalization; and as long as
it does not change, only finitely many calls are there.  So the one way not to halt is a
call that leads back to itself, with the guard unchanged
(`halts_iff_not_reenters`).

The guard does not rule this out.  Where all redexes have been committed before, every
rule takes its other branch, and that branch normalizes too: `spin` is a redex that comes
back to itself by nothing but committed redexes.

## Main definitions

* `Guard.GrowsWithin`: a guard has the entries of another, and new ones from a finite set.
* `FiresWithin`: the rules fire at redexes with renderings from a finite set only.

## Main results

* `halts_iff_not_reenters`: when a normalization that fires at finitely many redexes halts.
* `not_forall_halts_of_firesWithin`: that it need not halt.
-/

namespace Combinatory

open Relation Term Event

namespace Guard

variable {o : Owner} {F : Finset String} {g g' h : Guard String}

/-- The second guard has what the first has, and if it is another one, also something
from `F` that the first does not have. -/
def GrowsWithin (o : Owner) (F : Finset String) (g h : Guard String) : Prop :=
  g.entries o ⊆ h.entries o ∧ (h = g ∨ ∃ a ∈ F, a ∈ h.entries o ∧ a ∉ g.entries o)

/-- The entries from `F` that have not been committed. -/
def missing (o : Owner) (F : Finset String) (g : Guard String) : Finset String :=
  F.filter (· ∉ g.entries o)

theorem GrowsWithin.refl (o : Owner) (F : Finset String) (g : Guard String) :
    GrowsWithin o F g g := ⟨List.Subset.refl _, .inl rfl⟩

theorem GrowsWithin.trans (h₁ : GrowsWithin o F g g') (h₂ : GrowsWithin o F g' h) :
    GrowsWithin o F g h := by
  obtain ⟨hsub₁, rfl | ⟨a, haF, ha', ha⟩⟩ := h₁
  · exact h₂
  · exact ⟨fun _ hb => h₂.1 (hsub₁ hb), .inr ⟨a, haF, h₂.1 ha', ha⟩⟩

/-- A commit from `F` is such a growth. -/
theorem growsWithin_commit {a : String} (ha : a ∈ F) : GrowsWithin o F g (g.commit o a).2 := by
  refine ⟨fun b hb => (mem_entries_commit g o a b).2 (.inr hb), ?_⟩
  by_cases hmem : a ∈ g.entries o
  · left
    rw [commit, if_pos hmem]
  · exact .inr ⟨a, ha, (mem_entries_commit g o a a).2 (.inl rfl), hmem⟩

/-- A guard that has grown misses less. -/
theorem GrowsWithin.card_lt (hg : GrowsWithin o F g h) (hne : h ≠ g) :
    (h.missing o F).card < (g.missing o F).card := by
  obtain ⟨hsub, rfl | ⟨a, haF, ha', ha⟩⟩ := hg
  · exact absurd rfl hne
  · refine Finset.card_lt_card ((Finset.ssubset_iff_of_subset ?_).2 ⟨a, ?_, ?_⟩)
    · intro b hb
      obtain ⟨hbF, hb⟩ := Finset.mem_filter.1 hb
      exact Finset.mem_filter.2 ⟨hbF, fun h => hb (hsub h)⟩
    · exact Finset.mem_filter.2 ⟨haF, ha⟩
    · exact fun h => (Finset.mem_filter.1 h).2 ha'

end Guard

open Guard

section

variable {o : Owner} {F : Finset String} {redex t u r : Term} {p : Plan Term}
  {g h : Guard String} {es : List Event} {x y : Term × Guard String}

/-! ## Guards below a normalization -/

/-- What a plan comes to leaves a guard that has grown by the redexes of its events. -/
theorem Plan.Yields.growsWithin (hy : p.Yields o redex g es r h) (hredex : redex.script ∈ F)
    (hes : ∀ rule u, fired rule u ∈ es → u.script ∈ F) : GrowsWithin o F g h := by
  induction hy with
  | done redex r g => exact .refl o F g
  | commit rest ih =>
      have hrest := ih hredex fun rule u hu => hes rule u (List.mem_append_right _ hu)
      exact (growsWithin_commit hredex).trans hrest
  | normal hred rest ih => exact ih hredex hes
  | @fire redex t next g rule args es u g' es' r h hred body rest ihbody ihrest =>
      have hbody := ihbody (hes rule t (List.mem_append_left _ (.head es))) fun rule' v hv =>
        hes rule' v (List.mem_append_left _ (.tail _ hv))
      exact hbody.trans (ihrest hredex fun rule' v hv =>
        hes rule' v (List.mem_append_right _ hv))

/-- What a term comes to leaves a guard that has grown by the redexes of its events. -/
theorem Evaluates.growsWithin (he : Evaluates o t g es r h)
    (hes : ∀ rule u, fired rule u ∈ es → u.script ∈ F) : GrowsWithin o F g h := by
  cases he with
  | normal hred => exact .refl o F g
  | fire hred body =>
      exact body.growsWithin (hes _ t (.head _)) fun rule u hu => hes rule u (.tail _ hu)

/-- A call of a plan is made with a guard that has grown by the redexes of the events
before it. -/
theorem Plan.Asks.growsWithin (ha : p.Asks o redex g es u h) (hredex : redex.script ∈ F)
    (hes : ∀ rule u, fired rule u ∈ es → u.script ∈ F) : GrowsWithin o F g h := by
  induction ha with
  | here t next g => exact .refl o F g
  | call first rest ih =>
      have hfirst := first.growsWithin fun rule u hu => hes rule u (List.mem_append_left _ hu)
      exact hfirst.trans (ih fun rule u hu => hes rule u (List.mem_append_right _ hu))
  | commit rest ih =>
      exact (growsWithin_commit hredex).trans
        (ih fun rule u hu => hes rule u (List.mem_append_right _ hu))

/-- The rules fire at redexes with renderings from a finite set only, whatever limit a
normalization is given. -/
def FiresWithin (o : Owner) (t : Term) (g : Guard String) (F : Finset String) : Prop :=
  ∀ u, Fires o t g u → u.script ∈ F

/-- Below a normalization that fires within `F`, calls are made with guards that have
grown within `F`. -/
theorem FiresWithin.growsWithin (hF : FiresWithin o t g F)
    (hreach : ReflTransGen (Calls o) (t, g) x) (hxy : Calls o x y) :
    GrowsWithin o F x.2 y.2 := by
  obtain ⟨rule, args, es, hred, ha⟩ := hxy
  exact ha.growsWithin (hF _ (fires_of_reachable hreach hred)) fun rule' u hu =>
    hF u (fires_of_asks hreach hred ha hu)

end

/-! ## Finitely many calls -/

/-- In a finite type, a relation that leads nowhere back has no infinite paths. -/
theorem wellFounded_of_acyclic {α : Type} [Finite α] {r : α → α → Prop}
    (hr : ∀ x, ¬ TransGen r x x) : WellFounded (flip r) := by
  have htrans : IsTrans α (flip (TransGen r)) := ⟨fun _ _ _ h h' => h'.trans h⟩
  have hirrefl : Std.Irrefl (flip (TransGen r)) := ⟨hr⟩
  have hwf : WellFounded (flip (TransGen r)) := Finite.wellFounded_of_trans_of_irrefl _
  exact Subrelation.wf (r := flip (TransGen r)) (fun h => TransGen.single h) hwf

section

variable {o : Owner} {F : Finset String} {t : Term} {g : Guard String}

/-- The redexes with renderings from `F` that are called with the guard `h` below a
normalization. -/
abbrev CalledWith (o : Owner) (F : Finset String) (t : Term) (g h : Guard String) : Type :=
  {x : Term × Guard String //
    ReflTransGen (Calls o) (t, g) x ∧ x.2 = h ∧ x.1.script ∈ F}

instance (h : Guard String) : Finite (CalledWith o F t g h) := by
  refine Finite.of_injective (β := F) (fun x => ⟨x.1.1.script, x.2.2.2⟩) ?_
  rintro ⟨⟨u, k⟩, _, rfl, _⟩ ⟨⟨v, k'⟩, _, hk, _⟩ huv
  obtain rfl := Term.script_injective (congrArg Subtype.val huv)
  obtain rfl : k' = k := hk
  rfl

/-- Without a repetition among the calls, there is no infinite path of them: the guard
changes finitely often, and in between there are finitely many redexes to go through. -/
theorem acc_of_not_reenters (hF : FiresWithin o t g F) (hre : ¬ Reenters o t g)
    {x : Term × Guard String} (hreach : ReflTransGen (Calls o) (t, g) x) :
    Acc (flip (Calls o)) x := by
  -- The outer induction is on what the guard still misses; the inner one goes through the
  -- redexes that are called with one and the same guard.
  induction hm : (x.2.missing o F).card using Nat.strong_induction_on generalizing x with
  | h m ihguard =>
      cases hred : x.1.redex? with
      | none => exact .intro _ fun y hy => absurd hy (not_calls_of_redex?_eq_none hred)
      | some found =>
          have hwf : WellFounded (flip fun u v : CalledWith o F t g x.2 => Calls o u.1 v.1) :=
            wellFounded_of_acyclic fun u hu =>
              hre ⟨u.1, u.2.1, hu.lift Subtype.val fun _ _ h => h⟩
          have hx : x.1.script ∈ F := hF _ (fires_of_reachable hreach hred)
          suffices ∀ u : CalledWith o F t g x.2, Acc (flip (Calls o)) u.1 from
            this ⟨x, hreach, rfl, hx⟩
          intro u
          induction u using hwf.induction with
          | h u ihterm =>
              obtain ⟨u, hu, hguard, huF⟩ := u
              refine .intro _ fun y hy => ?_
              have hyreach := hu.tail hy
              have hgrows := hF.growsWithin hu hy
              rw [hguard] at hgrows
              by_cases hsame : y.2 = x.2
              · cases hyred : y.1.redex? with
                | none =>
                    exact .intro _ fun z hz => absurd hz (not_calls_of_redex?_eq_none hyred)
                | some found =>
                    obtain ⟨rule, args⟩ := found
                    have hyF := hF _ (fires_of_reachable hyreach hyred)
                    exact ihterm ⟨y, hyreach, hsame, hyF⟩ hy
              · exact ihguard _ (hm ▸ hgrows.card_lt hsame) hyreach rfl

/-- Calls that contain what they call contain everything that fires. -/
theorem FiresWithin.of_closed {P : Term × Guard String → Prop} (hstart : P (t, g))
    (hcalls : ∀ x y, P x → Calls o x y → P y) (hscript : ∀ x, P x → x.1.script ∈ F) :
    FiresWithin o t g F := by
  rintro u ⟨l, rule, hfired⟩
  rw [Evaluation.normalize_eq] at hfired
  rcases firesBelow_of_fired hfired with hnone | ⟨args, h, -, hreach⟩
  · exact absurd hnone (Array.not_mem_empty _)
  · have hP : ∀ x, ReflTransGen (Calls o) (t, g) x → P x := by
      intro x hx
      induction hx with
      | refl => exact hstart
      | tail _ hxy ih => exact hcalls _ _ ih hxy
    exact hscript _ (hP _ hreach)

end

/-! ## A loop of old redexes -/

/-- A guard to which the terms of a list have been committed. -/
def Guard.ofTerms (o : Owner) : List Term → Guard String
  | [] => .empty
  | t :: ts => ((ofTerms o ts).commit o t.script).2

/-- The guard holds the terms of the list and no others. -/
theorem Guard.script_mem_ofTerms_iff {o : Owner} {t : Term} {ts : List Term} :
    t.script ∈ (ofTerms o ts).entries o ↔ t ∈ ts := by
  induction ts with
  | nil => simp [ofTerms]
  | cons u ts ih =>
      rw [ofTerms, mem_entries_commit, Term.script_injective.eq_iff, ih, List.mem_cons]

namespace Spin

/-- `S (I K S) (S (S I I) K)`. -/
def w : Term := app (app S (app (app I K) S)) (app (app S (app (app S I) I)) K)

/-- What comes back: `S (w w (K w)) (K w) I`. -/
def spin : Term := app (app (app S (app (app w w) (app K w))) (app K w)) I

/-- The redex that `spin` calls: `w w (K w) I (K w I)`. -/
def spread : Term := app (app (app (app w w) (app K w)) I) (app (app K w) I)

/-- The head of `spread`, which comes to `S (w w (K w))`. -/
def head : Term := app w w

/-- What `head` is spread to: `I K S w (S (S I I) K w)`. -/
def opened : Term :=
  app (app (app (app I K) S) w) (app (app (app S (app (app S I) I)) K) w)

/-- The last argument of `opened`, which comes to `w w (K w)`. -/
def half : Term := app (app (app S (app (app S I) I)) K) w

/-- What `half` is spread to: `S I I w (K w)`. -/
def crossed : Term := app (app (app (app S I) I) w) (app K w)

/-- The first part of `crossed`, which comes to `w w`. -/
def copied : Term := app (app (app S I) I) w

/-- What `copied` is spread to: `I w (I w)`. -/
def both : Term := app (app I w) (app I w)

/-- The redexes that are committed on the way from `spin` to itself. -/
def committed : List Term := [spin, spread, head, opened, half, crossed, copied, both]

/-- All terms that are called on the way. -/
def orbit : List Term :=
  committed ++ [app I K, app (app K S) w, app S I, w, app I w, app K w]

section

variable {o : Owner} {g : Guard String} (hold : ∀ t ∈ committed, t.script ∈ g.entries o)

include hold

theorem settles_copied : Settles o g copied head := by
  have hboth : Settles o g both head :=
    .identityApplied (hold both (by decide)) (.of_redex?_eq_none o g rfl) (.identity o g w)
  exact .substitution (hold copied (by decide)) hboth

theorem settles_half : Settles o g half (app head (app K w)) := by
  have hcrossed : Settles o g crossed (app head (app K w)) :=
    .nestedHead (hold crossed (by decide)) (.of_redex?_eq_none o g rfl)
      (settles_copied hold) (.of_redex?_eq_none o g rfl)
  exact .substitution (hold half (by decide)) hcrossed

theorem settles_head : Settles o g head (app S (app head (app K w))) := by
  have hopened : Settles o g opened (app S (app head (app K w))) :=
    .nestedHead (hold opened (by decide)) (.identity o g K) (.constant o g S w)
      (settles_half hold)
  exact .substitution (hold head (by decide)) hopened

/-- `spin` calls `spread`, and `spread` calls `spin`. -/
theorem reenters_spin : Reenters o spin g := by
  have hspread : Calls o (spin, g) (spread, g) :=
    (calls_substitution_iff (hold spin (by decide))).2 rfl
  have hspin : Calls o (spread, g) (spin, g) :=
    (calls_nestedHead_iff (hold spread (by decide)) (settles_head hold)).2 (.inr (.inl rfl))
  exact ⟨(spin, g), .refl, .tail (.single hspread) hspin⟩

/-- Nothing but the orbit is called from it, and the guard stays as it is: the last argument
of `spread` would be called only after `spin` had come to something. -/
theorem orbit_closed {x y : Term × Guard String} (hx : x.1 ∈ orbit ∧ x.2 = g)
    (hxy : Calls o x y) : y.1 ∈ orbit ∧ y.2 = g := by
  obtain ⟨t, k⟩ := x
  obtain ⟨ht, rfl⟩ := hx
  simp only [orbit, committed, List.cons_append, List.nil_append, List.mem_cons,
    List.not_mem_nil, or_false] at ht
  rcases ht with rfl | rfl | rfl | rfl | rfl | rfl | rfl | rfl | rfl | rfl | rfl | rfl | rfl | rfl
  · obtain rfl := (calls_substitution_iff (hold spin (by decide))).1 hxy
    exact ⟨(by decide : spread ∈ orbit), rfl⟩
  · rcases (calls_nestedHead_iff (hold spread (by decide)) (settles_head hold)).1 hxy with
      rfl | rfl | ⟨v, g', ⟨es, he⟩, -⟩
    · exact ⟨(by decide : head ∈ orbit), rfl⟩
    · exact ⟨(by decide : spin ∈ orbit), rfl⟩
    · have hhalts : Halts o spin k := halts_iff_evaluates.2 ⟨es, v, g', he⟩
      exact absurd hhalts (not_halts_of_reenters (reenters_spin hold))
  · obtain rfl := (calls_substitution_iff (hold head (by decide))).1 hxy
    exact ⟨(by decide : opened ∈ orbit), rfl⟩
  · rcases (calls_nestedHead_iff_of_settles (hold opened (by decide)) (.identity o k K)
      (.constant o k S w)).1 hxy with rfl | rfl | rfl
    · exact ⟨(by decide : app I K ∈ orbit), rfl⟩
    · exact ⟨(by decide : app (app K S) w ∈ orbit), rfl⟩
    · exact ⟨(by decide : half ∈ orbit), rfl⟩
  · obtain rfl := (calls_substitution_iff (hold half (by decide))).1 hxy
    exact ⟨(by decide : crossed ∈ orbit), rfl⟩
  · rcases (calls_nestedHead_iff_of_settles (hold crossed (by decide))
      (.of_redex?_eq_none o k rfl) (settles_copied hold)).1 hxy with rfl | rfl | rfl
    · exact ⟨(by decide : app S I ∈ orbit), rfl⟩
    · exact ⟨(by decide : copied ∈ orbit), rfl⟩
    · exact ⟨(by decide : app K w ∈ orbit), rfl⟩
  · obtain rfl := (calls_substitution_iff (hold copied (by decide))).1 hxy
    exact ⟨(by decide : both ∈ orbit), rfl⟩
  · rcases (calls_identityApplied_iff (hold both (by decide)) (.of_redex?_eq_none o k rfl)
      (.identity o k w)).1 hxy with rfl | rfl
    · exact ⟨(by decide : w ∈ orbit), rfl⟩
    · exact ⟨(by decide : app I w ∈ orbit), rfl⟩
  · exact absurd hxy not_calls_identity
  · exact absurd hxy not_calls_constant
  · exact absurd hxy (not_calls_of_redex?_eq_none rfl)
  · exact absurd hxy (not_calls_of_redex?_eq_none rfl)
  · exact absurd hxy not_calls_identity
  · exact absurd hxy (not_calls_of_redex?_eq_none rfl)

/-- The rules fire at redexes of the orbit only. -/
theorem firesWithin_orbit : FiresWithin o spin g (orbit.map Term.script).toFinset := by
  refine .of_closed (P := fun x => x.1 ∈ orbit ∧ x.2 = g) ⟨(by decide : spin ∈ orbit), rfl⟩
    (fun x y hx hxy => orbit_closed hold hx hxy) ?_
  rintro x ⟨hx, -⟩
  exact List.mem_toFinset.2 (List.mem_map_of_mem hx)

end

/-- The redexes on the way have been committed. -/
theorem script_mem_entries (o : Owner) :
    ∀ t ∈ committed, t.script ∈ (Guard.ofTerms o committed).entries o :=
  fun _ ht => Guard.script_mem_ofTerms_iff.2 ht

end Spin

/-! ## Halting -/

/-- **A normalization that fires at finitely many redexes halts exactly when no call below
it leads back to itself.** -/
theorem halts_iff_not_reenters (o : Owner) (t : Term) (g : Guard String) (F : Finset String)
    (hF : FiresWithin o t g F) : Halts o t g ↔ ¬ Reenters o t g := by
  constructor
  · intro hh hre
    exact not_halts_of_reenters hre hh
  · intro hre
    exact halts_iff_acc.2 (acc_of_not_reenters hF hre .refl)

/-- Where the redexes on the way from `spin` to itself have been committed, its
normalization fires at finitely many redexes and does not halt. -/
theorem not_halts_spin_of_committed :
    FiresWithin (.thread .main) Spin.spin (.ofTerms (.thread .main) Spin.committed)
        (Spin.orbit.map Term.script).toFinset ∧
      ¬ Halts (.thread .main) Spin.spin (.ofTerms (.thread .main) Spin.committed) := by
  have hold := Spin.script_mem_entries (.thread .main)
  have hF := Spin.firesWithin_orbit hold
  refine ⟨hF, fun hh => ?_⟩
  exact (halts_iff_not_reenters _ _ _ _ hF).1 hh (Spin.reenters_spin hold)

/-- **Firing at finitely many redexes is not enough to halt.** -/
theorem not_forall_halts_of_firesWithin :
    ¬ ∀ (o : Owner) (t : Term) (g : Guard String),
      (∃ F, FiresWithin o t g F) → Halts o t g := by
  intro h
  have hold := Spin.script_mem_entries (.thread .main)
  exact not_halts_of_reenters (Spin.reenters_spin hold)
    (h (.thread .main) Spin.spin _ ⟨_, Spin.firesWithin_orbit hold⟩)

end Combinatory
