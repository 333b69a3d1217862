import Mathlib.Algebra.Order.Ring.Defs
import SeismicHazard.Proofs.Result.Gathers

/-!
# Results below each other

A result is below another one if both have the same views and every cell of the first has at most
the probability of the same cell of the second. So it is if both gather the same ruptures and none of
them exceeds the level of the first with a greater probability.

* `Marginals.Below`: one result below another.
* `Contribution.Below`: one rupture that contributes to both.
* `productWhere_anti`: the products over cells.
* `Setting.gather_below`: the results that gather contributions.
-/

namespace SeismicHazard

section

variable {α : Type} [Field α] [LinearOrder α]

/-- Whether two tensors have one shape and no cell of the first has a greater value. -/
structure Tensor.Below (s t : Tensor α) : Prop where
  shape : s.shape = t.shape
  cells : ∀ cell ∈ Tensor.cells s.shape, ∃ a b, s.get? cell = some a ∧ t.get? cell = some b ∧ a ≤ b

/-- Whether two results have the same views in the same order, and no cell of a view of the first has
a greater probability. -/
def Marginals.Below (m m' : Marginals α) : Prop :=
  List.Forall₂ (fun v v' => v.1 = v'.1 ∧ v.2.Below v'.2) m.views m'.views

/-- Whether two contributions are those of one rupture, and in no epsilon bin the first has a
smaller probability of no exceedance. -/
structure Contribution.Below (c c' : Contribution α) : Prop where
  rupture : c.rupture = c'.rupture
  pnes : List.Forall₂ (fun pne pne' => 0 < pne' ∧ pne' ≤ pne) c.pnes c'.pnes

/-- Whether two factors belong to one cell, and the second is positive and not the greater one. -/
def FactorBelow (x y : List Nat × α) : Prop := x.1 = y.1 ∧ 0 < y.2 ∧ y.2 ≤ x.2

/-! ### Factors -/

theorem rel_coe {β γ : Type} {r : β → γ → Prop} {xs : List β} {ys : List γ}
    (h : List.Forall₂ r xs ys) : Multiset.Rel r (xs : Multiset β) (ys : Multiset γ) := by
  induction h with
  | nil => exact .zero
  | cons hxy _ ih => exact .cons hxy ih

/-- Smaller factors have smaller products, wherever their cells are. -/
theorem productWhere_anti [IsStrictOrderedRing α] {F G : Multiset (List Nat × α)}
    (h : Multiset.Rel FactorBelow F G) (p : List Nat → Prop) [DecidablePred p] :
    0 < productWhere G p ∧ productWhere G p ≤ productWhere F p := by
  induction h with
  | zero => simp
  | @cons x y F G hxy _ ih =>
    obtain ⟨hcell, hpos, hle⟩ := hxy
    obtain ⟨ihpos, ihle⟩ := ih
    rw [productWhere_cons, productWhere_cons, hcell]
    split
    · exact ⟨mul_pos hpos ihpos, mul_le_mul hle ihle ihpos.le (hpos.le.trans hle)⟩
    · simpa only [one_mul] using ⟨ihpos, ihle⟩

variable [FloorRing α] {g : Grid α} {numRegions : Nat}

theorem Contribution.Below.factors {c c' : Contribution α} (h : c.Below c') :
    Multiset.Rel FactorBelow (c.factors g numRegions) (c'.factors g numRegions) := by
  unfold Contribution.factors
  rw [h.rupture]
  cases g.place? numRegions c'.rupture with
  | none => exact .zero
  | some at_ =>
    obtain ⟨hlength, hpnes⟩ := List.forall₂_iff_get.1 h.pnes
    refine rel_coe (List.forall₂_iff_get.2 ⟨by simp [hlength], fun i hi hi' => ?_⟩)
    simpa [FactorBelow] using hpnes i (by simpa using hi) (by simpa using hi')

theorem factorsOf_below {cs cs' : Multiset (Contribution α)}
    (h : Multiset.Rel Contribution.Below cs cs') :
    Multiset.Rel FactorBelow (factorsOf g numRegions cs) (factorsOf g numRegions cs') :=
  Multiset.rel_bind (fun _ _ hc => hc.factors) h

/-! ### Results -/

variable [IsStrictOrderedRing α]

/-- Of two results that gather the same ruptures, that with the smaller contributions is below the
other one. -/
theorem Setting.gather_below (st : Setting α) (g : Grid α) {cs cs' : Multiset (Contribution α)}
    (h : Multiset.Rel Contribution.Below cs cs') : (st.gather g cs).Below (st.gather g cs') := by
  unfold gather Marginals.Below Marginals.ofFactors
  rw [List.forall₂_map_left_iff, List.forall₂_map_right_iff, List.forall₂_same]
  refine fun kind _ => ⟨rfl, rfl, fun cell hcell => ?_⟩
  have hproducts := productWhere_anti (@factorsOf_below _ _ _ _ g st.regions.length _ _ h)
    (kind.project · = cell)
  exact ⟨_, _, kind.get?_ofFactors _ hcell, kind.get?_ofFactors _ hcell,
    sub_le_sub_left hproducts.2 1⟩

end

end SeismicHazard
