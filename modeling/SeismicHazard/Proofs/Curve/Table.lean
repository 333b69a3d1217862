import Mathlib.Algebra.Order.Field.Basic
import Mathlib.Order.Bounds.Basic
import SeismicHazard.Curve.Table
import SeismicHazard.Proofs.Number.Exact

/-!
# The greatest probability of the curves of a table

The greatest probability that the curves of an intensity measure type have for a realization is looked
for over all sites, starting from zero. It does not matter in which order the curves are visited, nor
that some sites have no such curve.

* `CurveTable.Gives`: the probabilities of the curves of a realization.
* `CurveTable.maxAlong`: the greatest of them, if the curves are visited in a given order.
* `CurveTable.isGreatest_maxAlong`: it is the greatest of zero and of these probabilities.
* `CurveTable.IsMaxPoe`: what this says of curves with and without probabilities.
-/

namespace SeismicHazard

instance : Std.TransCmp comparePlaces := inferInstanceAs (Std.TransCmp (compareLex _ _))

instance : Std.LawfulEqCmp comparePlaces where
  eq_of_compare {a b} h := by
    obtain ⟨hfst, hsnd⟩ := compareLex_eq_eq.1 h
    exact Prod.ext (Std.LawfulEqOrd.eq_of_compare hfst) (Std.LawfulEqOrd.eq_of_compare hsnd)

section

variable {α : Type} [Field α] [LinearOrder α] [FloorRing α]

theorem isGreatest_foldl_max (a : α) (xs : List α) :
    IsGreatest {x | x = a ∨ x ∈ xs} (xs.foldl Scalar.max a) := by
  induction xs generalizing a with
  | nil => simp
  | cons x xs ih =>
    obtain ⟨hmem, hle⟩ := ih (Max.max a x)
    rw [List.foldl_cons, Scalar.max_eq]
    refine ⟨?_, ?_⟩
    · rcases hmem with hmax | hmem
      · rcases max_choice a x with ha | hx
        · exact .inl (hmax.trans ha)
        · exact .inr (List.mem_cons.2 (.inl (hmax.trans hx)))
      · exact .inr (List.mem_cons_of_mem _ hmem)
    · have hstart : Max.max a x ≤ xs.foldl Scalar.max (Max.max a x) := hle (.inl rfl)
      rintro y (rfl | hy)
      · exact (le_max_left _ _).trans hstart
      · rcases List.mem_cons.1 hy with rfl | hy
        · exact (le_max_right _ _).trans hstart
        · exact hle (.inr hy)

/-- The greatest probability of the curve of `imt` is zero or on the curve. -/
theorem CurveSet.isGreatest_maxPoe (s : CurveSet α) (imt : String) :
    IsGreatest {p | p = 0 ∨ ∃ c, s.get? imt = some c ∧ p ∈ c.poes} (s.maxPoe imt) := by
  unfold maxPoe
  cases hc : s.get? imt with
  | none => simp
  | some c => simpa [Curve.maxPoe] using isGreatest_foldl_max 0 c.poes

namespace CurveTable

variable {t : CurveTable α} {realization : ℕ} {imt : String}
  {visited : List ((ℕ × ℕ) × CurveSet α)} {p : α}

/-- Whether a curve of `imt` has the probability for a realization, at some site. -/
def Gives (t : CurveTable α) (realization : ℕ) (imt : String) (p : α) : Prop :=
  ∃ site set c, t.get? site realization = some set ∧ set.get? imt = some c ∧ p ∈ c.poes

/-- The greatest probability of the curves of `imt` for a realization, if the curves are visited in the
given order. -/
def maxAlong (visited : List ((ℕ × ℕ) × CurveSet α)) (realization : ℕ) (imt : String) : α :=
  ((visited.filter fun e => e.1.2 == realization).map fun e => e.2.maxPoe imt).foldl Scalar.max 0

omit [Field α] [LinearOrder α] [FloorRing α] in
theorem mem_of_perm (h : visited.Perm t.byPlace.toList) {site : ℕ} {set : CurveSet α} :
    ((site, realization), set) ∈ visited ↔ t.get? site realization = some set :=
  h.mem_iff.trans Std.TreeMap.mem_toList_iff_getElem?_eq_some

/-- Whatever the order, it is the greatest of zero and the probabilities of all these curves. -/
theorem isGreatest_maxAlong (h : visited.Perm t.byPlace.toList) :
    IsGreatest {p | p = 0 ∨ t.Gives realization imt p} (maxAlong visited realization imt) := by
  obtain ⟨hmem, hle⟩ := isGreatest_foldl_max (0 : α)
    ((visited.filter fun e => e.1.2 == realization).map fun e => e.2.maxPoe imt)
  have hentry : ∀ {e : (ℕ × ℕ) × CurveSet α},
      e ∈ visited.filter (fun e => e.1.2 == realization) ↔
        ∃ site, e.1 = (site, realization) ∧ t.get? site realization = some e.2 := by
    rintro ⟨⟨site, r⟩, set⟩
    rw [List.mem_filter, beq_iff_eq]
    constructor
    · rintro ⟨he, rfl⟩
      exact ⟨site, rfl, (mem_of_perm h).1 he⟩
    · rintro ⟨_, hplace, hset⟩
      cases hplace
      exact ⟨(mem_of_perm h).2 hset, rfl⟩
  constructor
  · rcases hmem with hzero | hmem
    · exact .inl hzero
    · obtain ⟨e, he, hmax⟩ := List.mem_map.1 hmem
      have hmax : e.2.maxPoe imt = maxAlong visited realization imt := hmax
      obtain ⟨site, -, hset⟩ := hentry.1 he
      rcases (e.2.isGreatest_maxPoe imt).1 with hzero | ⟨c, hc, hp⟩
      · exact .inl (hmax.symm.trans hzero)
      · exact .inr ⟨site, e.2, c, hset, hc, hmax ▸ hp⟩
  · rintro p (rfl | ⟨site, set, c, hset, hc, hp⟩)
    · exact hle (.inl rfl)
    · have hle_set : p ≤ set.maxPoe imt := (set.isGreatest_maxPoe imt).2 (.inr ⟨c, hc, hp⟩)
      have he : ((site, realization), set) ∈ visited.filter fun e => e.1.2 == realization :=
        hentry.2 ⟨site, rfl, hset⟩
      exact hle_set.trans (hle (.inr (List.mem_map_of_mem he)))

/-- The order in which the curves are visited does not matter. -/
theorem maxAlong_eq (h : visited.Perm t.byPlace.toList) :
    maxAlong visited realization imt = t.maxPoe realization imt :=
  (isGreatest_maxAlong h).unique (isGreatest_maxAlong (.refl _))

theorem isGreatest_maxPoe (t : CurveTable α) (realization : ℕ) (imt : String) :
    IsGreatest {p | p = 0 ∨ t.Gives realization imt p} (t.maxPoe realization imt) :=
  isGreatest_maxAlong (.refl _)

/-- A probability other than zero is reached if some curve reaches it. -/
theorem le_maxPoe_iff (hp : 0 < p) :
    p ≤ t.maxPoe realization imt ↔ ∃ q, t.Gives realization imt q ∧ p ≤ q := by
  obtain ⟨hmem, hle⟩ := t.isGreatest_maxPoe realization imt
  constructor
  · intro h
    rcases hmem with hzero | hgives
    · rw [hzero] at h
      exact absurd h (not_le.2 hp)
    · exact ⟨_, hgives, h⟩
  · rintro ⟨q, hq, hpq⟩
    exact hpq.trans (hle (.inr hq))

/-- What the greatest probability is: zero without a probability that is not negative, in particular
without a curve, and else the greatest of all probabilities. -/
structure IsMaxPoe (t : CurveTable α) (realization : ℕ) (imt : String) (max : α) : Prop where
  of_negative : (∀ p, t.Gives realization imt p → p < 0) → max = 0
  of_nonneg : (∃ p, t.Gives realization imt p ∧ 0 ≤ p) →
    IsGreatest {p | t.Gives realization imt p} max

theorem isMaxPoe_maxPoe (t : CurveTable α) (realization : ℕ) (imt : String) :
    t.IsMaxPoe realization imt (t.maxPoe realization imt) := by
  obtain ⟨hmem, hle⟩ := t.isGreatest_maxPoe realization imt
  have hnonneg : 0 ≤ t.maxPoe realization imt := hle (.inl rfl)
  constructor
  · intro hall
    rcases hmem with hzero | hgives
    · exact hzero
    · exact absurd (hall _ hgives) (not_lt.2 hnonneg)
  · rintro ⟨p, hp, hp0⟩
    refine ⟨?_, fun q hq => hle (.inr hq)⟩
    rcases hmem with hzero | hgives
    · have hpeq : p = t.maxPoe realization imt :=
        le_antisymm (hle (.inr hp)) (hzero.le.trans hp0)
      exact hpeq ▸ hp
    · exact hgives

theorem IsMaxPoe.unique {max max' : α} (h : t.IsMaxPoe realization imt max)
    (h' : t.IsMaxPoe realization imt max') : max = max' := by
  by_cases hnonneg : ∃ p, t.Gives realization imt p ∧ 0 ≤ p
  · exact (h.of_nonneg hnonneg).unique (h'.of_nonneg hnonneg)
  · have hnegative : ∀ p, t.Gives realization imt p → p < 0 := fun p hp =>
      not_le.1 fun hp0 => hnonneg ⟨p, hp, hp0⟩
    exact (h.of_negative hnegative).trans (h'.of_negative hnegative).symm

end CurveTable

end

end SeismicHazard
