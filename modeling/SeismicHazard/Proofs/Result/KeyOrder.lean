import SeismicHazard.Result.Key

/-!
# The order of result keys

If the numbers in keys are lawfully ordered then so are the keys, and keys that compare equal are
equal: a map by keys has one entry for every key.
-/

namespace SeismicHazard.ResultKey

variable {α : Type}

/-! ### Optional thresholds -/

section

variable {cmp : α → α → Ordering}

instance [Std.OrientedCmp cmp] : Std.OrientedCmp (compareOption cmp) where
  eq_swap {a b} := by
    cases a <;> cases b
    · rfl
    · rfl
    · rfl
    · exact @Std.OrientedCmp.eq_swap _ cmp _ _ _

instance [Std.TransCmp cmp] : Std.TransCmp (compareOption cmp) where
  isLE_trans {a b c} hab hbc := by
    cases a <;> cases b <;> cases c <;> simp only [compareOption] at *
    case some.some.some => exact Std.TransCmp.isLE_trans hab hbc
    all_goals first | rfl | contradiction

instance [Std.LawfulEqCmp cmp] : Std.LawfulEqCmp (compareOption cmp) where
  compare_self {a} := by
    cases a
    · rfl
    · exact @Std.ReflCmp.compare_self _ cmp _ _
  eq_of_compare {a b} h := by
    cases a <;> cases b <;> simp only [compareOption] at h
    case none.none => rfl
    case some.some => rw [Std.LawfulEqCmp.eq_of_compare h]
    all_goals contradiction

end

/-! ### Keys -/

variable [TotalOrder α]

/-- The comparison of keys field by field, as a lexicographic one. -/
theorem compare_eq_lex : (compare : ResultKey α → ResultKey α → Ordering) =
    compareLex (compareOn (·.site)) (compareLex (compareOn (·.realization))
      (compareLex (fun a b => compareOption TotalOrder.cmp a.poe b.poe)
        (compareLex (compareOn (·.imt)) (compareLex (fun a b => TotalOrder.cmp a.level b.level)
          (fun a b => List.compareLex Ord.compare a.regions b.regions))))) :=
  rfl

/-- A comparison of values gives one of whatever has such a value. -/
theorem transCmp_on {β γ : Type} (cmp : β → β → Ordering) [Std.TransCmp cmp] (f : γ → β) :
    Std.TransCmp fun a b => cmp (f a) (f b) where
  eq_swap {_ _} := @Std.OrientedCmp.eq_swap _ cmp _ _ _
  isLE_trans {_ _ _} := @Std.TransCmp.isLE_trans _ cmp _ _ _ _

instance [Std.TransCmp (TotalOrder.cmp : α → α → Ordering)] :
    Std.TransCmp (compare : ResultKey α → ResultKey α → Ordering) := by
  have := transCmp_on (compareOption (TotalOrder.cmp : α → α → Ordering)) (ResultKey.poe (α := α))
  have := transCmp_on (TotalOrder.cmp : α → α → Ordering) (ResultKey.level (α := α))
  have := transCmp_on (List.compareLex (Ord.compare : String → String → Ordering))
    (ResultKey.regions (α := α))
  rw [compare_eq_lex]
  infer_instance

theorem eq_of_compare_eq [Std.LawfulEqCmp (TotalOrder.cmp : α → α → Ordering)] {a b : ResultKey α}
    (h : compare a b = .eq) : a = b := by
  simp only [compare, Ordering.then_eq_eq] at h
  obtain ⟨hsite, hrealization, hpoe, himt, hlevel, hregions⟩ := h
  cases a
  cases b
  congr
  · exact Std.LawfulEqOrd.eq_of_compare hsite
  · exact Std.LawfulEqOrd.eq_of_compare hrealization
  · exact Std.LawfulEqCmp.eq_of_compare hpoe
  · exact Std.LawfulEqOrd.eq_of_compare himt
  · exact Std.LawfulEqCmp.eq_of_compare hlevel
  · exact Std.LawfulEqCmp.eq_of_compare hregions

instance [Std.LawfulEqCmp (TotalOrder.cmp : α → α → Ordering)] :
    Std.LawfulEqCmp (compare : ResultKey α → ResultKey α → Ordering) where
  compare_self {a} := by
    simp [compare, Std.ReflCmp.compare_self]
  eq_of_compare := eq_of_compare_eq

/-- Whether two keys are equal is told by comparing them. -/
instance [Std.LawfulEqCmp (TotalOrder.cmp : α → α → Ordering)] : DecidableEq (ResultKey α) :=
  fun a b => decidable_of_iff (compare a b = .eq) Std.LawfulEqCmp.compare_eq_iff_eq

end SeismicHazard.ResultKey
