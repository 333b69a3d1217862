import Mathlib.Algebra.Order.Floor.Ring
import Mathlib.Order.Std
import SeismicHazard.Number.Scalar

/-!
# Numbers without rounding

An ordered field with integer parts is a type of numbers in which every computation of the library
is exact. The operations of the library are those of the field:

* `exactScalar`, `exactOrder`: the instances;
* `Scalar.min_eq`, `Scalar.max_eq`: the smaller and the larger number;
* `Scalar.isPositive_iff`: every number is finite.
-/

namespace SeismicHazard

section

variable {α : Type} [Field α] [LinearOrder α] [FloorRing α]

/-- The numbers of an ordered field. -/
instance exactScalar : Scalar α where
  toZero := inferInstance
  toOne := inferInstance
  toIntCast := inferInstance
  toAdd := inferInstance
  toSub := inferInstance
  toMul := inferInstance
  toDiv := inferInstance
  toNeg := inferInstance
  toLT := inferInstance
  toLE := inferInstance
  toBEq := inferInstance
  decidableLT := inferInstance
  decidableLE := inferInstance
  floor := Int.floor
  ceil := Int.ceil

namespace Scalar

@[simp]
theorem ofNat_eq (n : Nat) : (ofNat n : α) = n := by
  simp [ofNat]

theorem min_eq (a b : α) : Scalar.min a b = Min.min a b := by
  unfold Scalar.min
  split
  · next h => exact (min_eq_left h).symm
  · next h =>
    have hba : b < a := not_le.1 h
    rw [if_pos hba, min_eq_right hba.le]

theorem max_eq (a b : α) : Scalar.max a b = Max.max a b := by
  unfold Scalar.max
  split
  · next h => exact (max_eq_left h).symm
  · next h =>
    have hab : a < b := not_le.1 h
    rw [if_pos hab, max_eq_right hab.le]

@[simp]
theorem isNumber_eq (x : α) : isNumber x = true := by
  simp [isNumber]

@[simp]
theorem isFinite_eq (x : α) : isFinite x = true := by
  simp [isFinite]

theorem isPositive_iff {x : α} : isPositive x = true ↔ 0 < x := by
  simp [isPositive]

end Scalar

end

section

variable {α : Type} [LinearOrder α]

/-- The order of the numbers themselves. -/
instance exactOrder : TotalOrder α := ⟨compare⟩

instance : Std.TransCmp (TotalOrder.cmp : α → α → Ordering) :=
  inferInstanceAs (Std.TransCmp (compare : α → α → Ordering))

instance : Std.LawfulEqCmp (TotalOrder.cmp : α → α → Ordering) :=
  inferInstanceAs (Std.LawfulEqCmp (compare : α → α → Ordering))

end

end SeismicHazard
