import Mathlib.Data.List.Induction
import Mathlib.Order.Std
import SeismicHazard.Number.Span
import SeismicHazard.Proofs.Number.Exact

/-!
# Ranges that hold values

A range holds values if it runs from the least of them to the greatest.

* `Span.Holds`: a range holds the members of a list.
* `Span.eq_of_holds`: the order of the values does not matter.
* `Span.extend_holds`, `Span.ofNumbers_holds`: ranges that grow by one value after the other.
* `Span.unionAll_spec`: the range around several ranges.
-/

namespace SeismicHazard.Span

theorem ofNumbers_append_singleton {α : Type} [Scalar α] (xs : List α) (x : α) :
    ofNumbers (xs ++ [x]) = extendByNumber (ofNumbers xs) x := by
  rw [ofNumbers, List.foldl_append]
  rfl

section

variable {α : Type} [LinearOrder α]

/-- Whether a range runs from the least to the greatest of some values; without a value there is no
range. -/
def Holds (s : Option (Span α)) (xs : List α) : Prop :=
  match s with
  | none => xs = []
  | some s => s.lo ∈ xs ∧ s.hi ∈ xs ∧ ∀ x ∈ xs, s.lo ≤ x ∧ x ≤ s.hi

theorem exists_some_of_holds {s : Option (Span α)} {xs : List α} (h : Holds s xs) {x : α}
    (hx : x ∈ xs) : ∃ t, s = some t ∧ t.lo ≤ x ∧ x ≤ t.hi := by
  cases s with
  | none =>
    cases h
    cases hx
  | some t => exact ⟨t, rfl, h.2.2 x hx⟩

/-- The range depends on which values there are, not on their order. -/
theorem eq_of_holds {s t : Option (Span α)} {xs ys : List α} (hs : Holds s xs) (ht : Holds t ys)
    (h : ∀ x, x ∈ xs ↔ x ∈ ys) : s = t := by
  cases s with
  | none =>
    cases hs
    cases t with
    | none => rfl
    | some t => exact absurd ((h t.lo).2 ht.1) List.not_mem_nil
  | some s =>
    cases t with
    | none =>
      cases ht
      exact absurd ((h s.lo).1 hs.1) List.not_mem_nil
    | some t =>
      obtain ⟨slo, shi⟩ := s
      obtain ⟨tlo, thi⟩ := t
      obtain ⟨hslo, hshi, hsall⟩ := hs
      obtain ⟨htlo, hthi, htall⟩ := ht
      obtain rfl : slo = tlo :=
        le_antisymm (hsall tlo ((h tlo).2 htlo)).1 (htall slo ((h slo).1 hslo)).1
      obtain rfl : shi = thi :=
        le_antisymm (htall shi ((h shi).1 hshi)).2 (hsall thi ((h thi).2 hthi)).2
      rfl

theorem isSome_iff_of_holds {s : Option (Span α)} {xs : List α} (h : Holds s xs) :
    s.isSome ↔ xs ≠ [] := by
  cases s with
  | none =>
    cases h
    simp
  | some t => simpa using List.ne_nil_of_mem h.1

end

section

variable {α : Type} [Field α] [LinearOrder α] [FloorRing α]

theorem extendByNumber_eq (s : Option (Span α)) (x : α) : extendByNumber s x = extend s x := by
  cases s <;> simp [extendByNumber, extend]

theorem extend_holds {s : Option (Span α)} {xs : List α} (h : Holds s xs) (x : α) :
    Holds (extend s x) (xs ++ [x]) := by
  cases s with
  | none =>
    cases h
    simp [extend, Holds, single]
  | some s =>
    obtain ⟨hlo, hhi, hall⟩ := h
    simp only [extend, Holds, add, Scalar.min_eq, Scalar.max_eq, List.mem_append,
      List.mem_singleton]
    refine ⟨?_, ?_, ?_⟩
    · rcases min_choice s.lo x with h | h
      · exact Or.inl (h.symm ▸ hlo)
      · exact Or.inr h
    · rcases max_choice s.hi x with h | h
      · exact Or.inl (h.symm ▸ hhi)
      · exact Or.inr h
    · rintro y (hy | rfl)
      · exact ⟨(min_le_left _ _).trans (hall y hy).1, (hall y hy).2.trans (le_max_left _ _)⟩
      · exact ⟨min_le_right _ _, le_max_right _ _⟩

/-- The range of numbers holds them. -/
theorem ofNumbers_holds (xs : List α) : Holds (ofNumbers xs) xs := by
  induction xs using List.reverseRecOn with
  | nil => rfl
  | append_singleton xs x ih =>
    rw [ofNumbers_append_singleton, extendByNumber_eq]
    exact extend_holds ih x

/-- The range around several ranges reaches as far as each of them. -/
theorem unionAll_spec {spans : List (Span α)} {s : Span α} (h : unionAll spans = some s) :
    ∀ t ∈ spans, s.lo ≤ t.lo ∧ t.hi ≤ s.hi := by
  cases spans with
  | nil => cases h
  | cons first rest =>
    simp only [unionAll, Option.some.injEq] at h
    subst h
    induction rest using List.reverseRecOn with
    | nil =>
      intro t ht
      rw [List.mem_singleton.1 ht]
      exact ⟨le_refl _, le_refl _⟩
    | append_singleton rest last ih =>
      rw [List.foldl_append]
      simp only [List.foldl_cons, List.foldl_nil, union, Scalar.min_eq, Scalar.max_eq]
      intro t ht
      rw [← List.cons_append, List.mem_append, List.mem_singleton] at ht
      rcases ht with ht | rfl
      · exact ⟨(min_le_left _ _).trans (ih t ht).1, (ih t ht).2.trans (le_max_left _ _)⟩
      · exact ⟨min_le_right _ _, le_max_right _ _⟩

end

end SeismicHazard.Span
