import Combinatory.Proofs.Reduction

/-!
# Confluence

Two reductions of one term can be continued so that they meet.  The proof goes through
parallel reduction, which contracts any number of the redexes of a term at once.  It
has the diamond property because a redex stays one when its parts are reduced
(`Par.isRedex`), and because contracting it then gives a parallel reduct of what it
contracted to before (`Contracts.par`); these two facts are all that is used of the
three combinators.

## Main definitions

* `Par`: parallel reduction.

## Main results

* `Par.diamond`: the diamond property.
* `Steps.church_rosser`: reductions of one term meet.
* `Steps.unique_normal`: a term has one normal form at most.
-/

namespace Combinatory

namespace Term

/-- Reduction of any number of redexes at once.  A redex is contracted after its parts
have been reduced. -/
inductive Par : Term → Term → Prop
  | refl (t : Term) : Par t t
  | parts {l l' r r' : Term} : Par l l' → Par r r' → Par (app l r) (app l' r')
  | contract {l l' r r' u : Term} : IsRedex (app l r) → Par l l' → Par r r' →
      Contracts (app l' r') u → Par (app l r) u

variable {a b l l' r r' t u v : Term}

/-! ## Parts of a redex under parallel reduction -/

/-- No primitive reduces. -/
theorem Par.eq_prim {p : Primitive} (h : Par (prim p) u) : u = prim p := by
  cases h
  rfl

/-- A `K` with one argument is no redex, so only the argument reduces. -/
theorem Par.eq_app_K (h : Par (app K a) u) : ∃ a', u = app K a' ∧ Par a a' := by
  cases h with
  | refl => exact ⟨a, rfl, .refl a⟩
  | parts hl ha =>
      rw [hl.eq_prim]
      exact ⟨_, rfl, ha⟩
  | contract hr =>
      obtain ⟨w, hw⟩ := hr
      cases hw

/-- An `S` with two arguments is no redex, so only the arguments reduce. -/
theorem Par.eq_app_S (h : Par (app (app S a) b) u) :
    ∃ a' b', u = app (app S a') b' ∧ Par a a' ∧ Par b b' := by
  cases h with
  | refl => exact ⟨a, b, rfl, .refl a, .refl b⟩
  | parts hl hb =>
      cases hl with
      | refl => exact ⟨a, _, rfl, .refl a, hb⟩
      | parts hs ha =>
          rw [hs.eq_prim]
          exact ⟨_, _, rfl, ha, hb⟩
      | contract hr =>
          obtain ⟨w, hw⟩ := hr
          cases hw
  | contract hr =>
      obtain ⟨w, hw⟩ := hr
      cases hw

/-- A redex stays one when its parts are reduced. -/
theorem Par.isRedex (hr : IsRedex (app l r)) (hl : Par l l') : IsRedex (app l' r') := by
  obtain ⟨w, hw⟩ := hr
  cases hw with
  | identity =>
      rw [hl.eq_prim]
      exact ⟨_, .identity r'⟩
  | constant a =>
      obtain ⟨a', rfl, -⟩ := hl.eq_app_K
      exact ⟨_, .constant a' r'⟩
  | substitution a b =>
      obtain ⟨a', b', rfl, -, -⟩ := hl.eq_app_S
      exact ⟨_, .substitution a' b' r'⟩

/-- Contracting a redex whose parts have been reduced gives a parallel reduct of its
contractum. -/
theorem Contracts.par (hu : Contracts (app l r) u) (hl : Par l l') (hr : Par r r')
    (hv : Contracts (app l' r') v) : Par u v := by
  cases hu with
  | identity =>
      obtain rfl := hl.eq_prim
      cases hv
      exact hr
  | constant a =>
      obtain ⟨a', rfl, ha⟩ := hl.eq_app_K
      cases hv
      exact ha
  | substitution a b =>
      obtain ⟨a', b', rfl, ha, hb⟩ := hl.eq_app_S
      cases hv
      exact .parts (.parts ha hr) (.parts hb hr)

/-! ## The diamond property -/

/-- **Parallel reduction has the diamond property.**  Where the two sides contract the
same root or only one of them does, the parts are joined first and the root is
contracted on top of them. -/
theorem Par.diamond (hu : Par t u) (hv : Par t v) : ∃ w, Par u w ∧ Par v w := by
  induction hu generalizing v with
  | refl => exact ⟨v, hv, .refl v⟩
  | parts hl hr ihl ihr =>
      cases hv with
      | refl => exact ⟨_, .refl _, .parts hl hr⟩
      | parts hl' hr' =>
          obtain ⟨wl, hlw, hlw'⟩ := ihl hl'
          obtain ⟨wr, hrw, hrw'⟩ := ihr hr'
          exact ⟨_, .parts hlw hrw, .parts hlw' hrw'⟩
      | contract hred hl' hr' hc =>
          obtain ⟨wl, hlw, hlw'⟩ := ihl hl'
          obtain ⟨wr, hrw, hrw'⟩ := ihr hr'
          obtain ⟨w, hw⟩ : IsRedex (app wl wr) := Par.isRedex ⟨_, hc⟩ hlw'
          exact ⟨w, .contract (Par.isRedex hred hl) hlw hrw hw, hc.par hlw' hrw' hw⟩
  | contract hred hl hr hc ihl ihr =>
      cases hv with
      | refl => exact ⟨_, .refl _, .contract hred hl hr hc⟩
      | parts hl' hr' =>
          obtain ⟨wl, hlw, hlw'⟩ := ihl hl'
          obtain ⟨wr, hrw, hrw'⟩ := ihr hr'
          obtain ⟨w, hw⟩ : IsRedex (app wl wr) := Par.isRedex ⟨_, hc⟩ hlw
          exact ⟨w, hc.par hlw hrw hw, .contract (Par.isRedex hred hl') hlw' hrw' hw⟩
      | contract _ hl' hr' hc' =>
          obtain ⟨wl, hlw, hlw'⟩ := ihl hl'
          obtain ⟨wr, hrw, hrw'⟩ := ihr hr'
          obtain ⟨w, hw⟩ : IsRedex (app wl wr) := Par.isRedex ⟨_, hc⟩ hlw
          exact ⟨w, hc.par hlw hrw hw, hc'.par hlw' hrw' hw⟩

/-! ## Confluence of reduction -/

/-- Every redex is an application. -/
theorem Contracts.exists_app (h : Contracts t u) : ∃ l r, t = app l r := by
  cases h <;> exact ⟨_, _, rfl⟩

/-- One step is a parallel reduction. -/
theorem Step.par (h : Step t u) : Par t u := by
  induction h with
  | root hc =>
      obtain ⟨l, r, rfl⟩ := hc.exists_app
      exact .contract ⟨_, hc⟩ (.refl l) (.refl r) hc
  | left r _ ih => exact .parts ih (.refl r)
  | right l _ ih => exact .parts (.refl l) ih

/-- A parallel reduction takes a number of steps. -/
theorem Par.steps (h : Par t u) : Steps t u := by
  induction h with
  | refl => exact .refl
  | parts _ _ ihl ihr => exact ihl.congr_app ihr
  | contract _ _ _ hc ihl ihr => exact (ihl.congr_app ihr).tail (.root hc)

/-- Steps and parallel reductions reach the same terms. -/
theorem steps_iff_reflTransGen_par : Steps t u ↔ Relation.ReflTransGen Par t u := by
  constructor
  · intro h
    exact h.lift id fun _ _ hs => Step.par hs
  · intro h
    induction h with
    | refl => exact .refl
    | tail _ hp ih => exact ih.trans hp.steps

/-- **Reductions of one term can be continued so that they meet.** -/
theorem Steps.church_rosser (hu : Steps t u) (hv : Steps t v) :
    ∃ w, Steps u w ∧ Steps v w := by
  have diamond : ∀ a b c, Par a b → Par a c →
      ∃ d, Relation.ReflGen Par b d ∧ Relation.ReflTransGen Par c d := by
    intro a b c hb hc
    obtain ⟨d, hbd, hcd⟩ := hb.diamond hc
    exact ⟨d, .single hbd, .single hcd⟩
  rw [steps_iff_reflTransGen_par] at hu hv
  obtain ⟨w, huw, hvw⟩ := Relation.church_rosser diamond hu hv
  exact ⟨w, steps_iff_reflTransGen_par.2 huw, steps_iff_reflTransGen_par.2 hvw⟩

/-- A term has one normal form at most. -/
theorem Steps.unique_normal (hu : Steps t u) (hv : Steps t v) (hun : u.IsNormal)
    (hvn : v.IsNormal) : u = v := by
  obtain ⟨w, huw, hvw⟩ := hu.church_rosser hv
  rw [← hun.eq_of_steps huw, ← hvn.eq_of_steps hvw]

end Term

end Combinatory
