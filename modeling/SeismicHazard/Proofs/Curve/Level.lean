import Mathlib.Algebra.Order.Field.Basic
import Mathlib.Tactic.Linarith
import SeismicHazard.Curve.Table
import SeismicHazard.Proofs.Arrangement.Locate

/-!
# Levels read off hazard curves

The level that is exceeded with a given probability does not grow with the probability. This holds
of every curve that passes its checks, also of one whose probabilities rise and fall with the level.

* `Curve.IsMade`: curves that pass their checks.
* `Curve.Reads`: how a level is read off the points of a curve.
* `Curve.levelAt_anti`: a greater probability has no higher level.
-/

namespace SeismicHazard

section

variable {α : Type} [Field α] [LinearOrder α] [FloorRing α]

namespace Curve

/-- Whether a curve passes the checks of `Curve.make`. -/
def IsMade (c : Curve α) : Prop := make c.levels c.poes = .ok c

namespace IsMade

variable {c : Curve α}

/-- A curve has points, and its levels ascend. -/
theorem spec (h : c.IsMade) :
    c.levels.length = c.poes.length ∧ 0 < c.levels.length ∧ c.levels.Pairwise (· < ·) := by
  unfold IsMade make at h
  split at h
  · cases h
  · next hlengths =>
    obtain ⟨hsame, hne⟩ := not_or.1 hlengths
    split at h
    · cases h
    · next hlevels =>
      exact ⟨not_not.1 hsame, List.length_pos_iff.2 hne,
        (anyNeighbours_eq_false_iff (by simp)).1 (Bool.eq_false_iff.2 hlevels)⟩

/-- From the last point to the first one the levels descend. -/
theorem level_le (h : c.IsMade) {i j : Nat} {a b : α} (hij : i ≤ j)
    (ha : c.levels.reverse[i]? = some a) (hb : c.levels.reverse[j]? = some b) : b ≤ a := by
  obtain ⟨-, -, hlevels⟩ := h.spec
  obtain ⟨hj, -⟩ := List.getElem?_eq_some_iff.1 hb
  rw [List.length_reverse] at hj
  rw [List.getElem?_reverse (by omega)] at ha
  rw [List.getElem?_reverse hj] at hb
  exact getElem_le_of_pairwise hlevels (by omega) hb ha

end IsMade

/-! ### Between two points -/

section

variable {x x' x₀ x₁ y₀ y₁ : α}

theorem onLine_of_ne (h : x₁ ≠ x₀) :
    onLine x x₀ x₁ y₀ y₁ = y₀ + (x - x₀) * (y₁ - y₀) / (x₁ - x₀) := by
  rw [onLine, if_neg (by simpa using h)]

variable [IsStrictOrderedRing α]

/-- On a falling line a greater abscissa has no greater value. -/
theorem onLine_anti (hx : x₀ < x₁) (hy : y₁ ≤ y₀) (h : x ≤ x') :
    onLine x' x₀ x₁ y₀ y₁ ≤ onLine x x₀ x₁ y₀ y₁ := by
  rw [onLine_of_ne hx.ne', onLine_of_ne hx.ne']
  have hproduct : (x' - x₀) * (y₁ - y₀) ≤ (x - x₀) * (y₁ - y₀) :=
    mul_le_mul_of_nonpos_right (by linarith) (by linarith)
  have hquotient := div_le_div_of_nonneg_right hproduct (sub_pos.2 hx).le
  linarith

/-- Between its points a falling line lies between their values. -/
theorem onLine_bounds (hy : y₁ ≤ y₀) (hleft : x₀ ≤ x) (hright : x < x₁) :
    y₁ ≤ onLine x x₀ x₁ y₀ y₁ ∧ onLine x x₀ x₁ y₀ y₁ ≤ y₀ := by
  have hx : x₀ < x₁ := hleft.trans_lt hright
  have hwidth : x₁ - x₀ ≠ 0 := sub_ne_zero.2 hx.ne'
  have hend : onLine x₁ x₀ x₁ y₀ y₁ = y₁ := by
    rw [onLine_of_ne hx.ne', mul_div_cancel_left₀ _ hwidth]
    exact add_sub_cancel _ _
  have hstart : onLine x₀ x₀ x₁ y₀ y₁ = y₀ := by simp [onLine_of_ne hx.ne']
  constructor
  · exact hend.ge.trans (onLine_anti hx hy hright.le)
  · exact (onLine_anti hx hy hleft).trans hstart.le

end

/-! ### Along the curve -/

/-- How the level of a probability is read off the points of a curve, walked from the last point to
the first one. -/
inductive Reads (xs ys : List α) (poe : α) : α → Prop
  | atStart {first y : α} (hfirst : xs[0]? = some first) (hy : ys[0]? = some y)
      (hpoe : poe ≤ first) : Reads xs ys poe y
  | atEnd {first last y : α} (hfirst : xs[0]? = some first) (hlast : xs[xs.length - 1]? = some last)
      (hy : ys[xs.length - 1]? = some y) (hinside : first < poe) (hpoe : last ≤ poe) :
      Reads xs ys poe y
  | between {first last x₀ x₁ y₀ y₁ : α} {i : Nat} (hfirst : xs[0]? = some first)
      (hlast : xs[xs.length - 1]? = some last) (hinside : first < poe) (hbelow : poe < last)
      (hplace : partitionPoint (fun x => decide (x ≤ poe)) xs = i + 1)
      (hx₀ : xs[i]? = some x₀) (hx₁ : xs[i + 1]? = some x₁) (hy₀ : ys[i]? = some y₀)
      (hy₁ : ys[i + 1]? = some y₁) (hleft : x₀ ≤ poe) (hright : poe < x₁) :
      Reads xs ys poe (onLine poe x₀ x₁ y₀ y₁)

theorem IsMade.reads {c : Curve α} (h : c.IsMade) (poe : α) :
    Reads c.poes.reverse c.levels.reverse poe (c.levelAt poe) := by
  obtain ⟨hlength, hpos, -⟩ := h.spec
  unfold levelAt
  set xs := c.poes.reverse with hxs
  set ys := c.levels.reverse with hys
  have hsame : ys.length = xs.length := by simp [hxs, hys, hlength]
  have hpos' : 0 < xs.length := by simpa [hxs, ← hlength] using hpos
  have hx : ∀ i < xs.length, ∃ x, xs[i]? = some x := fun i hi => ⟨_, List.getElem?_eq_getElem hi⟩
  have hy : ∀ i < xs.length, ∃ y, ys[i]? = some y := fun i hi =>
    ⟨_, List.getElem?_eq_getElem (hsame ▸ hi)⟩
  obtain ⟨first, hfirst⟩ := hx 0 hpos'
  obtain ⟨last, hlast⟩ := hx (xs.length - 1) (by omega)
  obtain ⟨yFirst, hyFirst⟩ := hy 0 hpos'
  obtain ⟨yLast, hyLast⟩ := hy (xs.length - 1) (by omega)
  simp only [List.head?_eq_getElem?, List.getLast?_eq_getElem?, hsame, hfirst, hlast, hyFirst,
    hyLast]
  split
  · next hpoe => exact .atStart hfirst hyFirst hpoe
  · next hinside =>
    have hinside := not_le.1 hinside
    split
    · next hpoe => exact .atEnd hfirst hlast hyLast hinside hpoe
    · next hbelow =>
      have hbelow := not_le.1 hbelow
      -- the search ends behind a probability that is not above `poe`, which is not the last one
      obtain ⟨i, x₀, x₁, hplace, hx₀, hx₁, hleft, hright⟩ :=
        exists_partitionPoint_between (p := fun x => decide (x ≤ poe))
          (List.head?_eq_getElem? ▸ hfirst) (List.getLast?_eq_getElem? ▸ hlast)
          (decide_eq_true hinside.le) (decide_eq_false (not_le.2 hbelow))
      have hi : i + 1 < xs.length := (List.getElem?_eq_some_iff.1 hx₁).1
      obtain ⟨y₀, hy₀⟩ := hy i (by omega)
      obtain ⟨y₁, hy₁⟩ := hy (i + 1) hi
      simp only [hplace, Nat.add_sub_cancel, hx₀, hx₁, hy₀, hy₁]
      exact .between hfirst hlast hinside hbelow hplace hx₀ hx₁ hy₀ hy₁
        (of_decide_eq_true hleft) (not_le.1 (of_decide_eq_false hright))

section

variable [IsStrictOrderedRing α] {c : Curve α} {p q a b y : α}

/-- No level is above that of the last point, from which the walk starts. -/
theorem IsMade.le_of_reads (h : c.IsMade) (hp : Reads c.poes.reverse c.levels.reverse p a)
    (hy : c.levels.reverse[0]? = some y) : a ≤ y := by
  cases hp with
  | atStart _ ha _ => exact h.level_le le_rfl hy ha
  | atEnd _ _ ha _ _ => exact h.level_le (Nat.zero_le _) hy ha
  | between _ _ _ _ _ _ _ hy₀ hy₁ hleft hright =>
    obtain ⟨-, hle⟩ := onLine_bounds (h.level_le (Nat.le_succ _) hy₀ hy₁) hleft hright
    exact hle.trans (h.level_le (Nat.zero_le _) hy hy₀)

/-- No level is below that of the first point, at which the walk ends. -/
theorem IsMade.le_reads (h : c.IsMade) (hp : Reads c.poes.reverse c.levels.reverse p a)
    (hy : c.levels.reverse[c.poes.reverse.length - 1]? = some y) : y ≤ a := by
  cases hp with
  | atStart _ ha _ => exact h.level_le (Nat.zero_le _) ha hy
  | atEnd _ _ ha _ _ => exact h.level_le le_rfl ha hy
  | @between _ _ _ _ _ _ i _ _ _ _ _ _ hx₁ hy₀ hy₁ hleft hright =>
    obtain ⟨hle, -⟩ := onLine_bounds (h.level_le (Nat.le_succ _) hy₀ hy₁) hleft hright
    have hi : i + 1 < c.poes.reverse.length := (List.getElem?_eq_some_iff.1 hx₁).1
    exact (h.level_le (by omega) hy₁ hy).trans hle

/-- A greater probability has no higher level. -/
theorem levelAt_anti (h : c.IsMade) (hpq : p ≤ q) : c.levelAt q ≤ c.levelAt p := by
  have hp := h.reads p
  have hq := h.reads q
  generalize c.levelAt p = a at hp ⊢
  generalize c.levelAt q = b at hq ⊢
  cases hq with
  | atEnd _ _ hb _ _ => exact h.le_reads hp hb
  | atStart hfirst hb hpoe =>
    -- `p` does not lie behind the first of the probabilities either
    cases hp with
    | atStart _ ha _ => exact h.level_le le_rfl ha hb
    | atEnd hfirst' _ _ hinside _ =>
      cases hfirst.symm.trans hfirst'
      exact absurd (hpq.trans hpoe) (not_le.2 hinside)
    | between hfirst' _ hinside _ _ _ _ _ _ _ _ =>
      cases hfirst.symm.trans hfirst'
      exact absurd (hpq.trans hpoe) (not_le.2 hinside)
  | @between _ _ x₀ x₁ y₀ y₁ j hfirst hlast hinside hbelow hplace hx₀ hx₁ hy₀ hy₁ hleft hright =>
    have hy : y₁ ≤ y₀ := h.level_le (Nat.le_succ j) hy₀ hy₁
    cases hp with
    | atStart _ ha _ =>
      exact h.le_of_reads
        (.between hfirst hlast hinside hbelow hplace hx₀ hx₁ hy₀ hy₁ hleft hright) ha
    | atEnd _ hlast' _ _ hpoe' =>
      cases hlast.symm.trans hlast'
      exact absurd (hpoe'.trans hpq) (not_le.2 hbelow)
    | @between _ _ x₀' x₁' y₀' y₁' i _ _ _ _ hplace' hx₀' hx₁' hy₀' hy₁' hleft' hright' =>
      have hmono : partitionPoint (fun x => decide (x ≤ p)) c.poes.reverse ≤
          partitionPoint (fun x => decide (x ≤ q)) c.poes.reverse :=
        partitionPoint_mono fun x hx => decide_eq_true ((of_decide_eq_true hx).trans hpq)
      have hij : i ≤ j := by omega
      rcases hij.lt_or_eq with hlt | rfl
      · have hy' : y₁' ≤ y₀' := h.level_le (Nat.le_succ i) hy₀' hy₁'
        calc onLine q x₀ x₁ y₀ y₁ ≤ y₀ := (onLine_bounds hy hleft hright).2
          _ ≤ y₁' := h.level_le hlt hy₁' hy₀
          _ ≤ onLine p x₀' x₁' y₀' y₁' := (onLine_bounds hy' hleft' hright').1
      · cases hx₀.symm.trans hx₀'
        cases hx₁.symm.trans hx₁'
        cases hy₀.symm.trans hy₀'
        cases hy₁.symm.trans hy₁'
        exact onLine_anti (hleft.trans_lt hright) hy hpq

end

end Curve

end

end SeismicHazard
