import Mathlib.Data.List.Chain
import Mathlib.Data.Set.List
import SeismicHazard.Proofs.Curve.Interpolation
import SeismicHazard.Proofs.Number.WithNaN

/-!
# Curves with levels that are not numbers

The check of a curve looks for two neighbouring levels of which the first is at or above the second. A
level that is not a number is neither, so it passes, and the levels on its two sides are not compared.
The check of the probabilities asks that each of them lies between two bounds, so they are numbers.

* `Curve.make_eq_ok`, `Curve.Sound`: which points make a curve.
* `Curve.Between`: a level lies between two others, or is no number because one of them is none.
* `Curve.ReadAt`, `Curve.Sound.exists_readAt`: every level that is read off a curve lies between those
  of one or two of its points.
* `Curve.levelAt_of_make`: which points make a curve, and what is read off it.
* `Curve.nan_level`: a curve with a level that is not a number, and a probability with such a level.
-/

namespace SeismicHazard

namespace Curve

/-- A curve has as many probabilities as levels, no level at or above the next one, and probabilities
between zero and one. -/
theorem make_eq_ok {β : Type} [Scalar β] {levels poes : List β} {c : Curve β} :
    make levels poes = .ok c ↔ c = ⟨levels, poes⟩ ∧ levels.length = poes.length ∧ levels ≠ [] ∧
      levels.IsChain (fun a b => ¬ b ≤ a) ∧ ∀ p ∈ poes, 0 ≤ p ∧ p ≤ 1 := by
  have hchain : anyNeighbours (fun a b => decide (b ≤ a)) levels = false ↔
      levels.IsChain fun a b => ¬ b ≤ a := by
    simp only [anyNeighbours_eq_false, decide_eq_false_iff_not]
  have hany : (poes.any fun p => !(decide (0 ≤ p) && decide (p ≤ 1))) = false ↔
      ∀ p ∈ poes, 0 ≤ p ∧ p ≤ 1 := by
    simp
  rw [← hchain, ← hany, make]
  split
  · next hlengths =>
    refine ⟨nofun, fun ⟨_, hsame, hne, _⟩ => ?_⟩
    exact absurd hlengths (not_or.2 ⟨not_not.2 hsame, hne⟩)
  · next hlengths =>
    obtain ⟨hsame, hne⟩ := not_or.1 hlengths
    split
    · next hlevels =>
      refine ⟨nofun, fun ⟨_, _, _, hchain, _⟩ => ?_⟩
      exact absurd hlevels (Bool.eq_false_iff.1 hchain)
    · next hlevels =>
      split
      · next hpoes =>
        refine ⟨nofun, fun ⟨_, _, _, _, hall⟩ => ?_⟩
        exact absurd hpoes (Bool.eq_false_iff.1 hall)
      · next hpoes =>
        rw [Except.ok.injEq, eq_comm]
        exact ⟨fun h => ⟨h, not_not.1 hsame, hne, Bool.eq_false_iff.2 hlevels,
          Bool.eq_false_iff.2 hpoes⟩, fun h => h.1⟩

section

variable {α : Type} [Field α] [LinearOrder α] [FloorRing α]

/-! ### The points of a curve -/

/-- Whether two neighbouring levels ascend wherever both are numbers. -/
def Ascend (levels : List (WithNaN α)) : Prop :=
  ∀ i x y, levels[i]? = some (.number x) → levels[i + 1]? = some (.number y) → x < y

theorem ascend_iff {levels : List (WithNaN α)} :
    Ascend levels ↔ levels.IsChain fun a b => ¬ b ≤ a := by
  rw [List.isChain_iff_getElem]
  constructor
  · intro h i hi hle
    obtain ⟨y, x, hy, hx, hyx⟩ := WithNaN.le_iff.1 hle
    have hlt := h i x y (hx ▸ List.getElem?_eq_getElem _) (hy ▸ List.getElem?_eq_getElem _)
    exact absurd hyx (not_le.2 hlt)
  · intro h i x y hx hy
    obtain ⟨_, hx⟩ := List.getElem?_eq_some_iff.1 hx
    obtain ⟨hi, hy⟩ := List.getElem?_eq_some_iff.1 hy
    have hapart := h i hi
    rw [hx, hy, WithNaN.number_le_number] at hapart
    exact not_le.1 hapart

/-- Whether a probability is a number between zero and one. -/
def IsProbability (p : WithNaN α) : Prop := ∃ x, p = .number x ∧ 0 ≤ x ∧ x ≤ 1

theorem isProbability_iff {p : WithNaN α} : IsProbability p ↔ 0 ≤ p ∧ p ≤ 1 := by
  rw [WithNaN.zero_eq, WithNaN.one_eq]
  cases p with
  | nan => simp [IsProbability]
  | number x => simp [IsProbability]

/-- What is known of a curve: its probabilities are numbers, its levels may be none. -/
structure Sound (c : Curve (WithNaN α)) : Prop where
  length : c.levels.length = c.poes.length
  ne_nil : c.levels ≠ []
  ascend : Ascend c.levels
  poes : ∀ p ∈ c.poes, IsProbability p

theorem make_eq_ok_iff {levels poes : List (WithNaN α)} {c : Curve (WithNaN α)} :
    make levels poes = .ok c ↔ c = ⟨levels, poes⟩ ∧ c.Sound := by
  rw [make_eq_ok]
  refine and_congr_right fun hc => ?_
  subst hc
  simp only [← ascend_iff, ← isProbability_iff]
  exact ⟨fun ⟨hlength, hne, hascend, hpoes⟩ => ⟨hlength, hne, hascend, hpoes⟩,
    fun h => ⟨h.length, h.ne_nil, h.ascend, h.poes⟩⟩

theorem Sound.exists_ends {c : Curve (WithNaN α)} (h : c.Sound) :
    ∃ lowest highest first last, c.Ends lowest highest (.number first) (.number last) := by
  have hne : c.poes ≠ [] := List.length_pos_iff.1 (h.length ▸ List.length_pos_iff.2 h.ne_nil)
  obtain ⟨first, hfirst, -⟩ := h.poes _ (List.head_mem hne)
  obtain ⟨last, hlast, -⟩ := h.poes _ (List.getLast_mem hne)
  exact ⟨_, _, first, last, List.head?_eq_some_head h.ne_nil,
    List.getLast?_eq_some_getLast h.ne_nil, hfirst ▸ List.head?_eq_some_head hne,
    hlast ▸ List.getLast?_eq_some_getLast hne⟩

/-! ### Between two points -/

/-- Whether a level lies between two others. It is a number exactly if both of them are. -/
inductive Between : WithNaN α → WithNaN α → WithNaN α → Prop
  | number {lo level hi : α} (hlo : lo ≤ level) (hhi : level ≤ hi) :
    Between (.number lo) (.number level) (.number hi)
  | nan {lo hi : WithNaN α} (h : lo = .nan ∨ hi = .nan) : Between lo .nan hi

theorem Between.refl (level : WithNaN α) : Between level level level := by
  cases level with
  | nan => exact .nan (.inl rfl)
  | number x => exact .number le_rfl le_rfl

theorem onLine_number {x x₀ x₁ y₀ y₁ : α} :
    onLine (.number x : WithNaN α) (.number x₀) (.number x₁) (.number y₀) (.number y₁) =
      .number (onLine x x₀ x₁ y₀ y₁) := by
  unfold onLine
  by_cases h : x₁ = x₀
  · simp [h]
  · simp [h, WithNaN.number_div_number (sub_ne_zero.2 h)]

/-- The line through two points lies between them, unless the level of one of them is not a number. -/
theorem onLine_between [IsStrictOrderedRing α] {x x₀ x₁ : α} {y₀ y₁ : WithNaN α} (hleft : x₀ ≤ x)
    (hright : x < x₁) (hy : ∀ lo hi, y₁ = .number lo → y₀ = .number hi → lo < hi) :
    Between y₁ (onLine (.number x) (.number x₀) (.number x₁) y₀ y₁) y₀ := by
  have hne : ¬ (((.number x₁ : WithNaN α) == .number x₀) = true) := by
    simpa using (hleft.trans_lt hright).ne'
  cases y₀ with
  | nan =>
    rw [onLine, if_neg hne, WithNaN.nan_add]
    exact .nan (.inr rfl)
  | number hi =>
    cases y₁ with
    | nan =>
      rw [onLine, if_neg hne, WithNaN.nan_sub, WithNaN.mul_nan, WithNaN.nan_div, WithNaN.add_nan]
      exact .nan (.inl rfl)
    | number lo =>
      obtain ⟨hlo, hhi⟩ := onLine_bounds (hy lo hi rfl rfl).le hleft hright
      rw [onLine_number]
      exact .number hlo hhi

/-! ### Along the curve -/

/-- The two points from which the level of a probability is read: the last point twice if the
probability does not exceed its own, else the first point twice if its own does not exceed the
probability, and else the neighbours next to which the search in the reversed list ends. -/
inductive ReadAt (poes : List (WithNaN α)) (poe : α) : ℕ → ℕ → Prop
  | last {last : α} (hlast : poes.getLast? = some (.number last)) (hpoe : poe ≤ last) :
    ReadAt poes poe (poes.length - 1) (poes.length - 1)
  | first {first last : α} (hfirst : poes.head? = some (.number first))
      (hlast : poes.getLast? = some (.number last)) (habove : last < poe) (hpoe : first ≤ poe) :
    ReadAt poes poe 0 0
  | between {first last x₀ x₁ : α} {i : ℕ} (hfirst : poes.head? = some (.number first))
      (hlast : poes.getLast? = some (.number last)) (habove : last < poe) (hbelow : poe < first)
      (hplace : partitionPoint (fun x => decide (x ≤ .number poe)) poes.reverse + (i + 1) =
        poes.length)
      (hx₁ : poes[i]? = some (.number x₁)) (hx₀ : poes[i + 1]? = some (.number x₀))
      (hleft : x₀ ≤ poe) (hright : poe < x₁) : ReadAt poes poe i (i + 1)

variable [IsStrictOrderedRing α]

theorem Sound.exists_readAt {c : Curve (WithNaN α)} (h : c.Sound) (poe : α) :
    ∃ i j lo hi, ReadAt c.poes poe i j ∧ c.levels[i]? = some lo ∧ c.levels[j]? = some hi ∧
      Between lo (c.levelAt (.number poe)) hi := by
  obtain ⟨lowest, highest, first, last, hlowest, hhighest, hfirst, hlast⟩ := h.exists_ends
  have hnumber : ∀ {i : ℕ} {p : WithNaN α}, c.poes.reverse[i]? = some p → ∃ x, p = .number x := by
    intro i p hp
    obtain ⟨x, hx, -⟩ := h.poes p (List.mem_reverse.1 (List.mem_of_getElem? hp))
    exact ⟨x, hx⟩
  rw [levelAt]
  simp only [List.head?_reverse, List.getLast?_reverse, hfirst, hlast, hlowest, hhighest,
    WithNaN.number_le_number]
  split
  · next hpoe =>
    rw [List.getLast?_eq_getElem?, h.length] at hhighest
    exact ⟨_, _, highest, highest, .last hlast hpoe, hhighest, hhighest, .refl highest⟩
  · next habove =>
    have habove := not_le.1 habove
    split
    · next hpoe =>
      rw [List.head?_eq_getElem?] at hlowest
      exact ⟨0, 0, lowest, lowest, .first hfirst hlast habove hpoe, hlowest, hlowest,
        .refl lowest⟩
    · next hbelow =>
      have hbelow := not_le.1 hbelow
      obtain ⟨i, a₀, a₁, hplace, ha₀, ha₁, hleft, hright⟩ :=
        exists_partitionPoint_between (p := fun x : WithNaN α => decide (x ≤ .number poe))
          (List.head?_reverse.trans hlast) (List.getLast?_reverse.trans hfirst)
          (decide_eq_true (WithNaN.number_le_number.2 habove.le))
          (decide_eq_false (mt WithNaN.number_le_number.1 (not_le.2 hbelow)))
      obtain ⟨x₀, rfl⟩ := hnumber ha₀
      obtain ⟨x₁, rfl⟩ := hnumber ha₁
      have hleft : x₀ ≤ poe := of_decide_eq_true hleft
      have hright : poe < x₁ := not_le.1 (of_decide_eq_false hright)
      have hi : i + 1 < c.poes.length := by
        simpa using (List.getElem?_eq_some_iff.1 ha₁).1
      obtain ⟨hp₀, hp₁⟩ := getElem?_reverse_neighbours hi
      obtain ⟨hl₀, hl₁⟩ := getElem?_reverse_neighbours (h.length ▸ hi)
      rw [h.length] at hl₀ hl₁
      have hlevel : ∀ j < c.poes.length, ∃ y, c.levels[j]? = some y := fun j hj =>
        ⟨_, List.getElem?_eq_getElem (h.length ▸ hj)⟩
      obtain ⟨y₁, hy₁⟩ := hlevel (c.poes.length - 2 - i) (by omega)
      obtain ⟨y₀, hy₀⟩ := hlevel (c.poes.length - 2 - i + 1) (by omega)
      simp only [hplace, Nat.add_sub_cancel, ha₀, ha₁, hl₀, hl₁, hy₀, hy₁]
      refine ⟨_, _, y₁, y₀, .between hfirst hlast habove hbelow ?_ (hp₁ ▸ ha₁) (hp₀ ▸ ha₀) hleft
        hright, hy₁, hy₀, onLine_between hleft hright fun lo hi hlo hhi => ?_⟩
      · omega
      · exact h.ascend _ lo hi (hlo ▸ hy₁) (hhi ▸ hy₀)

/-- If all levels are numbers then they ascend, and every level that is read is a number between the
first and the last one. -/
theorem Sound.levelAt_number {c : Curve (WithNaN α)} (h : c.Sound) (hnumbers : .nan ∉ c.levels) :
    ∃ (levels : List α) (lowest highest : α), c.levels = levels.map .number ∧
      levels.Pairwise (· < ·) ∧
      levels.head? = some lowest ∧ levels.getLast? = some highest ∧
      ∀ poe : α, ∃ level, c.levelAt (.number poe) = .number level ∧ lowest ≤ level ∧
        level ≤ highest := by
  obtain ⟨levels, hlevels⟩ : ∃ levels : List α, levels.map .number = c.levels := by
    rw [← Set.mem_range, Set.range_list_map]
    intro a ha
    cases a with
    | nan => exact absurd ha hnumbers
    | number x => exact ⟨x, rfl⟩
  have hne : levels ≠ [] := by
    rintro rfl
    exact h.ne_nil hlevels.symm
  have hpairwise : levels.Pairwise (· < ·) := by
    have hchain := ascend_iff.1 h.ascend
    rw [← hlevels, List.isChain_map] at hchain
    simp only [WithNaN.number_le_number, not_le] at hchain
    exact List.isChain_iff_pairwise.1 hchain
  have hget : ∀ {i : ℕ} {a : WithNaN α}, c.levels[i]? = some a →
      ∃ x, levels[i]? = some x ∧ a = .number x := by
    intro i a ha
    rw [← hlevels, List.getElem?_map, Option.map_eq_some_iff] at ha
    obtain ⟨x, hx, hxa⟩ := ha
    exact ⟨x, hx, hxa.symm⟩
  have hhead := List.head?_eq_some_head hne
  have hlast := List.getLast?_eq_some_getLast hne
  refine ⟨levels, _, _, hlevels.symm, hpairwise, hhead, hlast, fun poe => ?_⟩
  rw [List.head?_eq_getElem?] at hhead
  rw [List.getLast?_eq_getElem?] at hlast
  obtain ⟨i, j, a, b, -, ha, hb, hbetween⟩ := h.exists_readAt poe
  obtain ⟨lo, hlo, rfl⟩ := hget ha
  obtain ⟨hi, hhi, rfl⟩ := hget hb
  generalize c.levelAt (.number poe) = level at hbetween ⊢
  cases hbetween with
  | number hle hge =>
    have hj : j < levels.length := (List.getElem?_eq_some_iff.1 hhi).1
    exact ⟨_, rfl, (getElem_le_of_pairwise hpairwise (Nat.zero_le i) hhead hlo).trans hle,
      hge.trans (getElem_le_of_pairwise hpairwise (by omega) hhi hlast)⟩
  | nan hnan => rcases hnan with hnan | hnan <;> cases hnan

/-- Which points make a curve, and what is read off it. The lists have one length, which is not zero, the
probabilities are numbers between zero and one, and the levels ascend wherever two neighbours are
numbers. The level of every probability lies between those of one or two points, and is a number
exactly if these are. If all levels are numbers then they ascend, and all that is read are numbers
between the first and the last one. -/
theorem levelAt_of_make (levels poes : List (WithNaN α)) (c : Curve (WithNaN α)) :
    (make levels poes = .ok c ↔ c = ⟨levels, poes⟩ ∧ c.Sound) ∧
    (make levels poes = .ok c →
      (∀ poe : α, ∃ i j lo hi, ReadAt c.poes poe i j ∧ c.levels[i]? = some lo ∧
        c.levels[j]? = some hi ∧ Between lo (c.levelAt (.number poe)) hi) ∧
      (.nan ∉ c.levels → ∃ (numbers : List α) (lowest highest : α),
        c.levels = numbers.map .number ∧ numbers.Pairwise (· < ·) ∧
        numbers.head? = some lowest ∧ numbers.getLast? = some highest ∧
        ∀ poe : α, ∃ level, c.levelAt (.number poe) = .number level ∧ lowest ≤ level ∧
          level ≤ highest)) :=
  ⟨make_eq_ok_iff, fun h =>
    have hsound : c.Sound := (make_eq_ok_iff.1 h).2
    ⟨hsound.exists_readAt, hsound.levelAt_number⟩⟩

end

/-! ### Samples -/

theorem levelAt_of_make_sample :
    let c : Curve (WithNaN ℚ) := ⟨[.number 1, .number 2, .number 3],
      [.number (9 / 10), .number (1 / 2), .number (1 / 10)]⟩
    make c.levels c.poes = .ok c ∧ .nan ∉ c.levels ∧ ∀ poe : ℚ, ∃ level,
      c.levelAt (.number poe) = .number level ∧ 1 ≤ level ∧ level ≤ 3 := by
  intro c
  have hmade : make c.levels c.poes = .ok c := by
    unfold make
    rw [if_neg (by decide), if_neg (by decide +kernel), if_neg (by decide +kernel)]
  have hnumbers : .nan ∉ c.levels := by simp [c]
  obtain ⟨-, hnumber⟩ := (levelAt_of_make c.levels c.poes c).2 hmade
  obtain ⟨levels, _, _, hlevels, -, hlowest, hhighest, hall⟩ := hnumber hnumbers
  have hmap : [1, 2, 3].map WithNaN.number = levels.map WithNaN.number := hlevels
  obtain rfl := List.map_injective_iff.2 WithNaN.number_injective hmap
  cases hlowest
  cases hhighest
  exact ⟨hmade, hnumbers, hall⟩

/-- A curve is made although one of its levels is not a number, and then the level of a probability
between its points is none either. -/
theorem nan_level :
    let c : Curve (WithNaN ℚ) := ⟨[.number (1 / 10), .nan, .number (3 / 10)],
      [.number (9 / 10), .number (1 / 2), .number (1 / 10)]⟩
    make c.levels c.poes = .ok c ∧ .nan ∈ c.levels ∧ c.levelAt (.number (7 / 10)) = .nan := by
  intro c
  refine ⟨?_, List.mem_of_getElem? (i := 1) rfl, by decide +kernel⟩
  unfold make
  rw [if_neg (by decide), if_neg (by decide +kernel), if_neg (by decide +kernel)]

end Curve

end SeismicHazard
