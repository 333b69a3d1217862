import Mathlib.Algebra.Order.Field.Basic
import Mathlib.Data.Rat.Floor
import Mathlib.Tactic.Linarith
import SeismicHazard.Proofs.Marginal.Projection

/-!
# The cells of a marginal

Every cell of a marginal combines the cells of the joint distribution that have its coordinates along
the axes that are kept. The combined probability is bounded by those that it combines.

* `eitherOf_bounds`, `anyOf_bounds`: bounds of the probability that one of several events happens.
* `Marginal.covered`: what a cell of a marginal combines.
* `Marginal.ofJoint_eq`: the cells of a marginal of a tensor of any rank.
* `Marginal.cells_of_ofJoint`: which cells there are, what they hold and how they are bounded.
-/

namespace SeismicHazard

section

variable {α : Type} [Field α] [LinearOrder α] [FloorRing α]

/-! ### One of several events -/

theorem anyOf_cons (p : α) (ps : List α) : anyOf (p :: ps) = eitherOf p (anyOf ps) := by
  rw [anyOf_eq, anyOf_eq, eitherOf, List.map_cons, List.prod_cons, sub_sub_cancel]

variable [IsStrictOrderedRing α]

/-- One of two events is at least as probable as each of them, and at most as both together. -/
theorem eitherOf_bounds {p q : α} (hp : 0 ≤ p ∧ p ≤ 1) (hq : 0 ≤ q ∧ q ≤ 1) :
    p ≤ eitherOf p q ∧ q ≤ eitherOf p q ∧ eitherOf p q ≤ 1 ∧ eitherOf p q ≤ p + q := by
  have hp' : 0 ≤ 1 - p := sub_nonneg.2 hp.2
  have hq' : 0 ≤ 1 - q := sub_nonneg.2 hq.2
  have hright : eitherOf p q = p + (1 - p) * q := by
    rw [eitherOf]
    ring
  have hleft : eitherOf p q = q + p * (1 - q) := by
    rw [eitherOf]
    ring
  have hboth : eitherOf p q = p + q - p * q := by
    rw [eitherOf]
    ring
  refine ⟨?_, ?_, sub_le_self 1 (mul_nonneg hp' hq'), ?_⟩
  · rw [hright]
    exact le_add_of_nonneg_right (mul_nonneg hp' hq.1)
  · rw [hleft]
    exact le_add_of_nonneg_right (mul_nonneg hp.1 hq')
  · rw [hboth]
    exact sub_le_self _ (mul_nonneg hp.1 hq.1)

/-- One of several events is at least as probable as each of them, and at most as all together. -/
theorem anyOf_bounds {ps : List α} (h : ∀ p ∈ ps, 0 ≤ p ∧ p ≤ 1) :
    0 ≤ anyOf ps ∧ anyOf ps ≤ 1 ∧ (∀ p ∈ ps, p ≤ anyOf ps) ∧ anyOf ps ≤ ps.sum := by
  induction ps with
  | nil => simp [anyOf]
  | cons p ps ih =>
    rw [List.forall_mem_cons] at h
    obtain ⟨hnonneg, hle, hmem, hsum⟩ := ih h.2
    obtain ⟨hfirst, hrest, hone, hadd⟩ := eitherOf_bounds h.1 ⟨hnonneg, hle⟩
    rw [anyOf_cons, List.sum_cons, List.forall_mem_cons]
    exact ⟨hnonneg.trans hrest, hone, ⟨hfirst, fun q hq => (hmem q hq).trans hrest⟩, by linarith⟩

end

/-! ### Cells -/

namespace Marginal

/-- The values in the cells of a tensor that have the coordinates of a cell of the marginal. -/
def covered {β : Type} (m : Marginal) (t : Tensor β) (cell : List Nat) : List β :=
  ((Tensor.cells t.shape).filter (m.project · = cell)).filterMap t.get?

theorem covered_ofCells {β : Type} (m : Marginal) (shape : List Nat) (f : List Nat → β)
    (cell : List Nat) : m.covered (Tensor.ofCells shape f) cell =
      ((Tensor.cells shape).filter (m.project · = cell)).map f := by
  rw [covered, List.filterMap_congr (g := fun c => some (f c)), List.filterMap_eq_map']
  · rfl
  · intro c hc
    exact Tensor.get?_ofCells f (List.mem_of_mem_filter hc)

theorem mem_toList_of_mem_covered {β : Type} {m : Marginal} {t : Tensor β} {cell : List Nat} {x : β}
    (h : x ∈ m.covered t cell) : x ∈ t.toList := by
  obtain ⟨c, -, hx⟩ := List.mem_filterMap.1 h
  unfold Tensor.get? at hx
  split at hx
  · exact Array.mem_toList_iff.2 (Array.mem_of_getElem? hx)
  · cases hx

variable {α : Type} [Field α] [LinearOrder α] [FloorRing α]

theorem ofJoint_eq (m : Marginal) (t : Tensor α) : m.ofJoint t =
    Tensor.ofCells (m.project t.shape) fun cell => anyOf (m.covered t cell) := by
  obtain ⟨f, hf⟩ := t.exists_ofCells 0
  rw [hf]
  simp only [ofJoint, Tensor.map_ofCells, ofComplement_ofCells]
  refine Tensor.ofCells_congr fun cell _ => ?_
  rw [covered_ofCells, anyOf_eq, productWhere_entries, List.map_map]
  rfl

variable [IsStrictOrderedRing α]

/-- A marginal of a tensor of any rank has the extents of the axes that are kept and there, in their
order. Each of its cells combines the cells with its coordinates; if these hold probabilities, then
so does the cell, which has at least each of them and at most their sum. -/
theorem cells_of_ofJoint (m : Marginal) (t : Tensor α) :
    (m.axes.map (·.index)).Pairwise (· < ·) ∧ (m.ofJoint t).shape = m.project t.shape ∧
    ∀ cell ∈ Tensor.cells (m.project t.shape), ∃ p, (m.ofJoint t).get? cell = some p ∧
      p = 1 - ((m.covered t cell).map fun q => 1 - q).prod ∧
      (m.covered t cell = [] → p = 0) ∧
      ((∀ q ∈ t.toList, 0 ≤ q ∧ q ≤ 1) →
        0 ≤ p ∧ p ≤ 1 ∧ (∀ q ∈ m.covered t cell, q ≤ p) ∧ p ≤ (m.covered t cell).sum) := by
  refine ⟨m.pairwise_axes, by rw [ofJoint_eq]; rfl, fun cell hcell => ?_⟩
  refine ⟨anyOf (m.covered t cell), ?_, anyOf_eq _, ?_, fun hprobabilities => ?_⟩
  · rw [ofJoint_eq, Tensor.get?_ofCells _ hcell]
  · intro hnone
    simp [hnone, anyOf]
  · exact anyOf_bounds fun q hq => hprobabilities q (mem_toList_of_mem_covered hq)

/-- Two cells with some probability for the lower magnitude, one for the higher. -/
def twoByTwo : Tensor ℚ := ⟨[2, 2, 1, 1, 1, 1], #[1 / 10, 1 / 5, 0, 1 / 2], rfl⟩

theorem cells_of_ofJoint_twoByTwo : mag.covered twoByTwo [0] = [1 / 10, 1 / 5] ∧
    ∃ p, (mag.ofJoint twoByTwo).get? [0] = some p ∧ p = 1 - (1 - 1 / 10) * (1 - 1 / 5) ∧
      0 ≤ p ∧ p ≤ 1 ∧ 1 / 5 ≤ p ∧ p ≤ 1 / 10 + 1 / 5 := by
  have hcovered : mag.covered twoByTwo [0] = [1 / 10, 1 / 5] := by decide +kernel
  have hprobabilities : ∀ q ∈ twoByTwo.toList, 0 ≤ q ∧ q ≤ 1 := by decide +kernel
  obtain ⟨-, -, hcells⟩ := cells_of_ofJoint mag twoByTwo
  obtain ⟨p, hp, hproduct, -, hbounds⟩ := hcells [0] (by decide)
  obtain ⟨hnonneg, hone, hmem, hsum⟩ := hbounds hprobabilities
  rw [hcovered] at hproduct hmem hsum
  refine ⟨hcovered, p, hp, ?_, hnonneg, hone, hmem _ (by simp), ?_⟩
  · simpa using hproduct
  · simpa using hsum

end Marginal

end SeismicHazard
