import Mathlib.Algebra.BigOperators.Group.Multiset.Basic
import Mathlib.Data.Multiset.Bind

/-!
# Sums over lists

Multisets that the members of a list contribute, added up.

* `bind_eq_count_nsmul`: a sum in which only one member counts.
* `bind_filterMap`: a sum over those members that have an image.
* `bind_nsmul`: a sum of multiples.
-/

namespace SeismicHazard

variable {β γ δ : Type}

/-- The sum over a list in which only one member counts: that one as often as it occurs. -/
theorem bind_eq_count_nsmul [BEq β] [LawfulBEq β] {xs : List β} {a : β} {f : β → Multiset γ}
    (h : ∀ x ∈ xs, x ≠ a → f x = 0) : (xs : Multiset β).bind f = xs.count a • f a := by
  induction xs with
  | nil => simp
  | cons x xs ih =>
    rw [← Multiset.cons_coe, Multiset.cons_bind, ih fun y hy => h y (List.mem_cons_of_mem _ hy)]
    by_cases hx : x = a
    · subst hx
      rw [List.count_cons_self, succ_nsmul, add_comm]
    · rw [h x List.mem_cons_self hx, zero_add, List.count_cons_of_ne hx]

/-- The sum over a list without repetitions in which only one member counts. -/
theorem bind_eq_of_mem {xs : List β} (hnodup : xs.Nodup) {a : β} (ha : a ∈ xs)
    {f : β → Multiset γ} (h : ∀ x ∈ xs, x ≠ a → f x = 0) : (xs : Multiset β).bind f = f a := by
  classical
  rw [bind_eq_count_nsmul h, List.count_eq_one_of_mem hnodup ha, one_nsmul]

theorem bind_filterMap (xs : List β) (f : β → Option γ) (g : γ → Multiset δ) :
    ((xs.filterMap f : List γ) : Multiset γ).bind g =
      (xs : Multiset β).bind fun x => (f x).elim 0 g := by
  induction xs with
  | nil => rfl
  | cons x xs ih =>
    rw [← Multiset.cons_coe, Multiset.cons_bind, ← ih, List.filterMap_cons]
    cases f x with
    | none => exact (zero_add _).symm
    | some y => exact Multiset.cons_bind y ((xs.filterMap f : List γ) : Multiset γ) g

theorem bind_nsmul (s : Multiset β) (n : Nat) (f : β → Multiset γ) :
    (s.bind fun x => n • f x) = n • s.bind f := by
  induction s using Multiset.induction with
  | empty => simp
  | cons x s ih => rw [Multiset.cons_bind, Multiset.cons_bind, ih, nsmul_add]

end SeismicHazard
