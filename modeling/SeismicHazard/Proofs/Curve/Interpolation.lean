import Mathlib.Data.Rat.Floor
import Mathlib.Tactic.FieldSimp
import Mathlib.Tactic.Ring
import SeismicHazard.Proofs.Curve.Level

/-!
# Levels lie on the curve

A level that is read off a hazard curve lies on the piecewise linear curve through its points: there
the curve has the probability that was asked for. So it is wherever the probability lies strictly
between those of the ends, also if the probabilities in between rise and fall.

* `throughPoints`, `Curve.poeAt`: the piecewise linear curve.
* `throughPoints_eq`: from each of its points to the next one it is a line.
* `Curve.poeAt_levelAt`: at the level that is read off, the curve has the probability asked for.
* `Curve.levelAt_on_curve`: what is read off a curve, for every probability.
-/

namespace SeismicHazard

/-- A place in a list walked from its end, and the next one, are neighbours in the list itself. -/
theorem getElem?_reverse_neighbours {β : Type} {xs : List β} {i : ℕ} (hi : i + 1 < xs.length) :
    xs.reverse[i]? = xs[xs.length - 2 - i + 1]? ∧ xs.reverse[i + 1]? = xs[xs.length - 2 - i]? := by
  rw [List.getElem?_reverse (by omega), List.getElem?_reverse hi]
  exact ⟨congrArg (xs[·]?) (by omega), congrArg (xs[·]?) (by omega)⟩

section

variable {α : Type} [Field α] [LinearOrder α] [FloorRing α]

/-- The value at `x` of the piecewise linear function through points with ascending abscissae. -/
def throughPoints : List (α × α) → α → α
  | [], _ => 0
  | [p], _ => p.2
  | p :: q :: rest, x =>
    if x ≤ q.1 then p.2 + (x - p.1) * (q.2 - p.2) / (q.1 - p.1) else throughPoints (q :: rest) x

/-- Between two neighbouring points the function is the line through them. -/
theorem throughPoints_eq {points : List (α × α)} (hascend : (points.map (·.1)).Pairwise (· < ·))
    {i : ℕ} {p q : α × α} (hp : points[i]? = some p) (hq : points[i + 1]? = some q) {x : α}
    (hleft : p.1 ≤ x) (hright : x ≤ q.1) :
    throughPoints points x = p.2 + (x - p.1) * (q.2 - p.2) / (q.1 - p.1) := by
  induction points generalizing i with
  | nil => cases hp
  | cons a points ih =>
    cases points with
    | nil => cases hq
    | cons b points =>
      rw [List.map_cons, List.pairwise_cons] at hascend
      obtain ⟨hfirst, hrest⟩ := hascend
      rw [throughPoints]
      cases i with
      | zero =>
        cases hp
        cases hq
        rw [if_pos hright]
      | succ i =>
        rw [List.getElem?_cons_succ] at hp hq
        split
        · next hx =>
          -- only the point at which the first line ends is on both lines
          have hzero : i = 0 := by
            by_contra hi
            have hb : ((b :: points).map (·.1))[0]? = some b.1 := rfl
            have hp' : ((b :: points).map (·.1))[i]? = some p.1 := by
              rw [List.getElem?_map, hp]
              rfl
            have hlt := getElem_lt_of_pairwise hrest (Nat.pos_of_ne_zero hi) hb hp'
            exact absurd (hlt.trans_le hleft) (not_lt.2 hx)
          subst hzero
          cases hp
          have hend : x = p.1 := le_antisymm hx hleft
          have hab : a.1 < p.1 := hfirst p.1 List.mem_cons_self
          rw [hend, sub_self, zero_mul, zero_div, add_zero,
            mul_div_cancel_left₀ _ (sub_ne_zero.2 hab.ne'), add_sub_cancel]
        · exact ih hrest hp hq

namespace Curve

/-- The probability of exceeding a level, on the piecewise linear curve through the points. -/
def poeAt (c : Curve α) (level : α) : α := throughPoints (c.levels.zip c.poes) level

variable {c : Curve α}

theorem IsMade.poeAt_eq (h : c.IsMade) {i : ℕ} {l₀ l₁ p₀ p₁ level : α}
    (hl₀ : c.levels[i]? = some l₀) (hl₁ : c.levels[i + 1]? = some l₁) (hp₀ : c.poes[i]? = some p₀)
    (hp₁ : c.poes[i + 1]? = some p₁) (hleft : l₀ ≤ level) (hright : level ≤ l₁) :
    c.poeAt level = p₀ + (level - l₀) * (p₁ - p₀) / (l₁ - l₀) := by
  obtain ⟨hlength, -, hlevels⟩ := h.spec
  have hascend : ((c.levels.zip c.poes).map (·.1)).Pairwise (· < ·) := by
    rwa [List.map_fst_zip hlength.le]
  have hp : (c.levels.zip c.poes)[i]? = some (l₀, p₀) := List.getElem?_zip_eq_some.2 ⟨hl₀, hp₀⟩
  have hq : (c.levels.zip c.poes)[i + 1]? = some (l₁, p₁) :=
    List.getElem?_zip_eq_some.2 ⟨hl₁, hp₁⟩
  exact throughPoints_eq hascend hp hq hleft hright

/-- Two ways along one line cancel. -/
theorem line_line {x x₀ x₁ y₀ y₁ : α} (hx : x₀ ≠ x₁) (hy : y₀ ≠ y₁) :
    x₁ + (y₀ + (x - x₀) * (y₁ - y₀) / (x₁ - x₀) - y₁) * (x₀ - x₁) / (y₀ - y₁) = x := by
  have hx' : x₁ - x₀ ≠ 0 := sub_ne_zero.2 hx.symm
  have hy' : y₀ - y₁ ≠ 0 := sub_ne_zero.2 hy
  field_simp
  ring

variable [IsStrictOrderedRing α]

/-- Between two neighbouring points of the walk, the curve has the probability asked for at the level
that is read off. -/
theorem IsMade.poeAt_onLine (h : c.IsMade) {i : ℕ} {poe x₀ x₁ y₀ y₁ : α}
    (hx₀ : c.poes.reverse[i]? = some x₀) (hx₁ : c.poes.reverse[i + 1]? = some x₁)
    (hy₀ : c.levels.reverse[i]? = some y₀) (hy₁ : c.levels.reverse[i + 1]? = some y₁)
    (hleft : x₀ ≤ poe) (hright : poe < x₁) : c.poeAt (onLine poe x₀ x₁ y₀ y₁) = poe := by
  obtain ⟨hlength, -, hlevels⟩ := h.spec
  have hi : i + 1 < c.poes.length := by
    simpa using (List.getElem?_eq_some_iff.1 hx₁).1
  obtain ⟨hp₁, hp₀⟩ := getElem?_reverse_neighbours hi
  obtain ⟨hl₁, hl₀⟩ := getElem?_reverse_neighbours (hlength ▸ hi)
  rw [hx₀] at hp₁
  rw [hx₁] at hp₀
  rw [hy₀, hlength] at hl₁
  rw [hy₁, hlength] at hl₀
  have hx : x₀ < x₁ := hleft.trans_lt hright
  have hy : y₁ < y₀ := getElem_lt_of_pairwise hlevels (Nat.lt_succ_self _) hl₀.symm hl₁.symm
  obtain ⟨hlow, hhigh⟩ := onLine_bounds hy.le hleft hright
  rw [h.poeAt_eq hl₀.symm hl₁.symm hp₀.symm hp₁.symm hlow hhigh, onLine_of_ne hx.ne']
  exact line_line hx.ne hy.ne'

/-! ### The ends of a curve -/

/-- The levels and the probabilities of the first and the last point of a curve. -/
structure Ends (c : Curve α) (lowest highest first last : α) : Prop where
  lowest : c.levels.head? = some lowest
  highest : c.levels.getLast? = some highest
  first : c.poes.head? = some first
  last : c.poes.getLast? = some last

omit [IsStrictOrderedRing α] in
theorem IsMade.exists_ends (h : c.IsMade) :
    ∃ lowest highest first last, c.Ends lowest highest first last := by
  obtain ⟨hlength, hpos, -⟩ := h.spec
  have hlevels : c.levels ≠ [] := List.length_pos_iff.1 hpos
  have hpoes : c.poes ≠ [] := List.length_pos_iff.1 (hlength ▸ hpos)
  exact ⟨_, _, _, _, List.head?_eq_some_head hlevels, List.getLast?_eq_some_getLast hlevels,
    List.head?_eq_some_head hpoes, List.getLast?_eq_some_getLast hpoes⟩

section

variable {lowest highest first last poe : α} (he : c.Ends lowest highest first last)

include he

omit [IsStrictOrderedRing α] [FloorRing α] [LinearOrder α] [Field α] in
/-- The walk begins at the last point. -/
theorem Ends.reverse_start :
    c.poes.reverse[0]? = some last ∧ c.levels.reverse[0]? = some highest := by
  rw [← List.head?_eq_getElem?, ← List.head?_eq_getElem?, List.head?_reverse, List.head?_reverse]
  exact ⟨he.last, he.highest⟩

omit [IsStrictOrderedRing α] in
/-- The walk ends at the first point. -/
theorem Ends.reverse_end (h : c.IsMade) : c.poes.reverse[c.poes.reverse.length - 1]? = some first ∧
    c.levels.reverse[c.poes.reverse.length - 1]? = some lowest := by
  have hsame : c.poes.reverse.length = c.levels.reverse.length := by simp [h.spec.1]
  constructor
  · rw [← List.getLast?_eq_getElem?, List.getLast?_reverse]
    exact he.first
  · rw [hsame, ← List.getLast?_eq_getElem?, List.getLast?_reverse]
    exact he.lowest

omit [IsStrictOrderedRing α] in
theorem IsMade.levelAt_of_le (h : c.IsMade) (hpoe : poe ≤ last) : c.levelAt poe = highest := by
  obtain ⟨hlast, hhighest⟩ := he.reverse_start
  have hreads := h.reads poe
  generalize c.levelAt poe = level at hreads ⊢
  cases hreads with
  | atStart _ hy _ => exact Option.some.inj (hy.symm.trans hhighest)
  | atEnd hstart _ _ hinside _ | between hstart _ hinside =>
    cases hstart.symm.trans hlast
    exact absurd hpoe (not_le.2 hinside)

omit [IsStrictOrderedRing α] in
theorem IsMade.levelAt_of_first_le (h : c.IsMade) (habove : last < poe) (hpoe : first ≤ poe) :
    c.levelAt poe = lowest := by
  obtain ⟨hfirst, hlowest⟩ := he.reverse_end h
  have hreads := h.reads poe
  generalize c.levelAt poe = level at hreads ⊢
  cases hreads with
  | atStart hstart _ hbefore =>
    cases hstart.symm.trans he.reverse_start.1
    exact absurd hbefore (not_le.2 habove)
  | atEnd _ _ hy _ _ => exact Option.some.inj (hy.symm.trans hlowest)
  | between _ hstop _ hbelow =>
    cases hstop.symm.trans hfirst
    exact absurd hpoe (not_le.2 hbelow)

/-- Strictly between the probabilities of the ends, the search ends between two points. -/
theorem IsMade.levelAt_between (h : c.IsMade) (habove : last < poe) (hbelow : poe < first) :
    ∃ i x₀ x₁ y₀ y₁, partitionPoint (fun x => decide (x ≤ poe)) c.poes.reverse = i + 1 ∧
      c.poes.reverse[i]? = some x₀ ∧ c.poes.reverse[i + 1]? = some x₁ ∧
      c.levels.reverse[i]? = some y₀ ∧ c.levels.reverse[i + 1]? = some y₁ ∧ x₁ - x₀ ≠ 0 ∧
      c.levelAt poe = y₀ + (poe - x₀) * (y₁ - y₀) / (x₁ - x₀) ∧
      c.poeAt (c.levelAt poe) = poe := by
  have hreads := h.reads poe
  generalize c.levelAt poe = level at hreads ⊢
  cases hreads with
  | atStart hstart _ hbefore =>
    cases hstart.symm.trans he.reverse_start.1
    exact absurd hbefore (not_le.2 habove)
  | atEnd _ hstop _ _ hbehind =>
    cases hstop.symm.trans (he.reverse_end h).1
    exact absurd hbehind (not_le.2 hbelow)
  | @between _ _ x₀ x₁ y₀ y₁ i _ _ _ _ hplace hx₀ hx₁ hy₀ hy₁ hleft hright =>
    have hne : x₁ ≠ x₀ := (hleft.trans_lt hright).ne'
    exact ⟨i, x₀, x₁, y₀, y₁, hplace, hx₀, hx₁, hy₀, hy₁, sub_ne_zero.2 hne, onLine_of_ne hne,
      h.poeAt_onLine hx₀ hx₁ hy₀ hy₁ hleft hright⟩

end

/-- What is read off a curve. Its last level is exceeded with every probability up to that of its last
point, and behind that its first level with every probability from that of its first point on. For a
probability strictly between them the search ends at a place with a neighbour on either side whose
probabilities differ, and the level lies on the line between the two: there the piecewise linear curve
through the points has the probability asked for. All levels lie between the first and the last one,
and a greater probability has no higher level. -/
theorem levelAt_on_curve (h : c.IsMade) :
    ∃ lowest highest first last : α, c.Ends lowest highest first last ∧
      (∀ poe ≤ last, c.levelAt poe = highest) ∧
      (∀ poe, last < poe → first ≤ poe → c.levelAt poe = lowest) ∧
      (∀ poe, last < poe → poe < first → ∃ i x₀ x₁ y₀ y₁,
        partitionPoint (fun x => decide (x ≤ poe)) c.poes.reverse = i + 1 ∧
        c.poes.reverse[i]? = some x₀ ∧ c.poes.reverse[i + 1]? = some x₁ ∧
        c.levels.reverse[i]? = some y₀ ∧ c.levels.reverse[i + 1]? = some y₁ ∧ x₁ - x₀ ≠ 0 ∧
        c.levelAt poe = y₀ + (poe - x₀) * (y₁ - y₀) / (x₁ - x₀) ∧
        c.poeAt (c.levelAt poe) = poe) ∧
      (∀ poe, lowest ≤ c.levelAt poe ∧ c.levelAt poe ≤ highest) ∧
      ∀ p q, p ≤ q → c.levelAt q ≤ c.levelAt p := by
  obtain ⟨lowest, highest, first, last, he⟩ := h.exists_ends
  refine ⟨lowest, highest, first, last, he, fun poe => h.levelAt_of_le he,
    fun poe => h.levelAt_of_first_le he, fun poe => h.levelAt_between he, fun poe => ⟨?_, ?_⟩,
    fun p q => levelAt_anti h⟩
  · exact h.le_reads (h.reads poe) (he.reverse_end h).2
  · exact h.le_of_reads (h.reads poe) he.reverse_start.2

end Curve

end

/-! ### A sample -/

namespace Curve

/-- A curve whose probabilities fall, rise and fall again. A probability that it has three times is
found on its first line. -/
theorem levelAt_on_curve_rising :
    let c : Curve ℚ := ⟨[1, 2, 3, 4], [1 / 2, 1 / 8, 1 / 4, 0]⟩
    c.IsMade ∧ c.levelAt (3 / 16) = 11 / 6 ∧ c.poeAt (11 / 6) = 3 / 16 ∧
      ∀ poe, 1 ≤ c.levelAt poe ∧ c.levelAt poe ≤ 4 := by
  intro c
  have hmade : c.IsMade := by
    unfold IsMade make
    rw [if_neg (by decide), if_neg (by decide +kernel), if_neg (by decide +kernel)]
  have hlevel : c.levelAt (3 / 16) = 11 / 6 := by decide +kernel
  obtain ⟨_, _, _, _, ⟨hlowest, hhighest, hfirst, hlast⟩, -, -, hbetween, hbounds, -⟩ :=
    levelAt_on_curve hmade
  cases hlowest
  cases hhighest
  cases hfirst
  cases hlast
  obtain ⟨_, _, _, _, _, -, -, -, -, -, -, -, hpoe⟩ := hbetween (3 / 16) (by decide +kernel)
    (by decide +kernel)
  exact ⟨hmade, hlevel, hlevel ▸ hpoe, hbounds⟩

end Curve

end SeismicHazard
