import Mathlib
import SeismicHazard.Proofs.Number.Real
import SeismicHazard.Proofs.Source.Ruptures

/-!
# Rates by magnitude bin

A Gutenberg-Richter law is cut into bins of one width, as many as fit best between its magnitudes. Each
bin has the rate between its ends, so the rates of all bins add up to the rate between the lower
magnitude and the end of the last bin. That is the upper magnitude only if the width divides the range.

* `Scalar.round_of_nonneg`: the nearest integer.
* `Recurrence.fault?_binned_eq_none_iff`, `Recurrence.fault?_truncated_eq_none_iff`: which recurrences
  make sense.
* `Recurrence.length_rates`, `Recurrence.pairwise_fst_rates`: the bins of a recurrence.
* `Recurrence.sum_snd_rates_truncated`: the overall rate of a law.
* `Recurrence.end_truncated`: where the last bin of a law ends.
* `Recurrence.truncated_bins_cover`: the bins of a law, and when they are those of its range.
* `Recurrence.truncated_bins_miss`: widths that do not divide the range.
-/

namespace SeismicHazard

section

variable {α : Type} [Field α] [LinearOrder α] [FloorRing α] [IsStrictOrderedRing α]

theorem Scalar.roundHalfUp_eq (x : α) : roundHalfUp x = ⌊x + 1 / 2⌋ := by
  have hhalf : (ratio 1 2 : α) = 1 / 2 := by simp [ratio]
  have hle : (⌊x⌋ : α) ≤ x := Int.floor_le x
  have hlt : x < ⌊x⌋ + 1 := Int.lt_floor_add_one x
  have hfloor : (Scalar.floor x : Int) = ⌊x⌋ := rfl
  rw [eq_comm, Int.floor_eq_iff, roundHalfUp, hfloor, hhalf]
  split
  · next h => constructor <;> linarith
  · next h =>
    push_cast
    constructor <;> linarith

theorem Scalar.round_of_nonneg {x : α} (h : 0 ≤ x) : Scalar.round x = ⌊x + 1 / 2⌋ := by
  rw [Scalar.round, if_neg (not_lt.2 h), roundHalfUp_eq]

end

namespace Recurrence

section

variable {α : Type} [Field α] [LinearOrder α] [FloorRing α] {a b lo hi w : α}

/-! ### Recurrences that make sense -/

theorem fault?_binned_eq_none_iff {minMag : α} {values : List α} :
    (binned minMag w values).fault? = none ↔ 0 < w ∧ values ≠ [] ∧ ∀ r ∈ values, 0 ≤ r := by
  rw [fault?]
  split
  · next h =>
    exact iff_of_false (Option.some_ne_none _) fun h' => h.elim (· h'.1) h'.2.1
  · next h =>
    rw [not_or, not_not] at h
    simp [h.1, h.2]

theorem fault?_truncated_eq_none_iff : (truncated a b lo hi w).fault? = none ↔ 0 < w ∧ lo < hi := by
  rw [fault?, ite_eq_right_iff, ← not_le, ← not_le]
  simp

theorem numBins_pos {r : Recurrence α} (h : r.fault? = none) : 0 < r.numBins := by
  cases r with
  | binned minMag w values =>
    exact List.length_pos_of_ne_nil (fault?_binned_eq_none_iff.1 h).2.1
  | truncated a b lo hi w =>
    have hone : 1 ≤ Max.max 1 (Scalar.round ((hi - lo) / w)) := le_max_left _ _
    simp only [numBins]
    omega

/-! ### The number of bins of a law -/

section

variable [IsStrictOrderedRing α]

/-- The whole number nearest to the range over the width, and at least one. -/
theorem cast_numBins_truncated (hw : 0 < w) (hlt : lo < hi) (a b : α) :
    ((truncated a b lo hi w).numBins : ℤ) = Max.max 1 ⌊(hi - lo) / w + 1 / 2⌋ := by
  have hquotient : 0 ≤ (hi - lo) / w := (div_pos (sub_pos.2 hlt) hw).le
  rw [numBins, Scalar.round_of_nonneg hquotient]
  exact Int.toNat_of_nonneg (zero_le_one.trans (le_max_left _ _))

/-- As many bins as fit best. The first one is taken however little of it is needed. -/
theorem numBins_truncated_eq (hw : 0 < w) (hlt : lo < hi) (a b : α) {n : ℕ} (hn : 0 < n)
    (hlow : n = 1 ∨ (n - 1 / 2) * w ≤ hi - lo) (hhigh : hi - lo < (n + 1 / 2) * w) :
    (truncated a b lo hi w).numBins = n := by
  have hle : ⌊(hi - lo) / w + 1 / 2⌋ ≤ n := by
    have hquotient := (div_lt_iff₀ hw).2 hhigh
    rw [← Int.lt_add_one_iff, Int.floor_lt]
    push_cast
    linarith
  have hcast := cast_numBins_truncated hw hlt a b
  obtain rfl | hlow := hlow
  · rw [max_eq_left (by exact_mod_cast hle)] at hcast
    exact_mod_cast hcast
  · have hge : (n : ℤ) ≤ ⌊(hi - lo) / w + 1 / 2⌋ := by
      have hquotient := (le_div_iff₀ hw).2 hlow
      rw [Int.le_floor]
      push_cast
      linarith
    rw [hle.antisymm hge, max_eq_right (by exact_mod_cast hn)] at hcast
    exact_mod_cast hcast

theorem numBins_truncated_of_lt (hw : 0 < w) (hlt : lo < hi) (hwide : 2 * (hi - lo) < w)
    (a b : α) : (truncated a b lo hi w).numBins = 1 := by
  refine numBins_truncated_eq hw hlt a b Nat.one_pos (.inl rfl) ?_
  push_cast
  linarith

/-- The bins end within half a width of the range, unless that is shorter than half a width. -/
theorem end_truncated (hw : 0 < w) (hlt : lo < hi) (hwide : w ≤ 2 * (hi - lo)) (a b : α) :
    lo + (truncated a b lo hi w).numBins * w ≤ hi + w / 2 ∧
      hi - w / 2 < lo + (truncated a b lo hi w).numBins * w := by
  have hone : 1 ≤ ⌊(hi - lo) / w + 1 / 2⌋ := by
    have hhalf : 1 / 2 ≤ (hi - lo) / w := by
      rw [le_div_iff₀ hw]
      linarith
    rw [Int.le_floor]
    push_cast
    linarith
  have hcast := cast_numBins_truncated hw hlt a b
  rw [max_eq_right hone] at hcast
  have hbins : ((truncated a b lo hi w).numBins : α) = ⌊(hi - lo) / w + 1 / 2⌋ := by
    exact_mod_cast congrArg (Int.cast (R := α)) hcast
  have hle := mul_le_mul_of_nonneg_right (Int.floor_le ((hi - lo) / w + 1 / 2)) hw.le
  have hgt := mul_lt_mul_of_pos_right (Int.lt_floor_add_one ((hi - lo) / w + 1 / 2)) hw
  rw [add_mul, div_mul_cancel₀ _ hw.ne'] at hle hgt
  rw [hbins]
  constructor <;> linarith

end

/-! ### Bins and their rates -/

variable [Elementary α]

theorem length_rates (r : Recurrence α) : r.rates.length = r.numBins := by
  cases r <;> simp [rates, numBins]

theorem rates_ne_nil {r : Recurrence α} (h : r.fault? = none) : r.rates ≠ [] := by
  rw [← List.length_pos_iff, length_rates]
  exact numBins_pos h

/-- The bins of a law follow each other from its lower magnitude on, each with the rate between its
ends. -/
theorem rates_truncated (a b lo hi w : α) : (truncated a b lo hi w).rates =
    (List.range (truncated a b lo hi w).numBins).map fun i : ℕ =>
      (lo + (i + 1 / 2) * w,
        exceedanceRate a b (lo + i * w) - exceedanceRate a b (lo + (i + 1 : ℕ) * w)) := by
  rw [rates]
  refine List.map_congr_left fun i _ => ?_
  have hhalf : (Scalar.ratio 1 2 : α) = 1 / 2 := by simp [Scalar.ratio]
  have hbelow : lo + (i + 1 / 2) * w - w / 2 = lo + i * w := by ring
  have habove : lo + (i + 1 / 2) * w + w / 2 = lo + (i + 1 : ℕ) * w := by
    push_cast
    ring
  simp only [hhalf, Scalar.ofNat_eq, Nat.cast_ofNat, hbelow, habove]

/-- The rates of neighbouring bins cancel at their common end. -/
theorem sum_snd_rates_truncated (a b lo hi w : α) :
    ((truncated a b lo hi w).rates.map (·.2)).sum = exceedanceRate a b lo -
      exceedanceRate a b (lo + (truncated a b lo hi w).numBins * w) := by
  rw [rates_truncated, List.map_map]
  generalize (truncated a b lo hi w).numBins = n
  have htelescope := Finset.sum_range_sub' (fun i : ℕ => exceedanceRate a b (lo + i * w)) n
  rw [Nat.cast_zero, zero_mul, add_zero] at htelescope
  exact htelescope

variable [IsStrictOrderedRing α]

theorem pairwise_fst_rates {r : Recurrence α} (hwidth : 0 < r.width) :
    (r.rates.map (·.1)).Pairwise (· < ·) := by
  rw [List.pairwise_map, List.pairwise_iff_getElem]
  intro i j hi hj hij
  rw [fst_rates (List.getElem?_eq_getElem hi), fst_rates (List.getElem?_eq_getElem hj)]
  have hlt : (i : α) * r.width < j * r.width :=
    mul_lt_mul_of_pos_right (Nat.cast_lt.2 hij) hwidth
  linarith

/-- The magnitudes of the bins lie within the range if that is no shorter than half a width. -/
theorem fst_rates_truncated_mem_iff (hw : 0 < w) (hlt : lo < hi) (a b : α) :
    (∀ p ∈ (truncated a b lo hi w).rates, lo ≤ p.1 ∧ p.1 ≤ hi) ↔ w ≤ 2 * (hi - lo) := by
  constructor
  · intro h
    by_contra hwide
    have hone := numBins_truncated_of_lt hw hlt (not_le.1 hwide) a b
    have hrates := rates_truncated a b lo hi w
    rw [hone, List.range_one, List.map_singleton] at hrates
    have hfirst := (h _ (hrates ▸ List.mem_singleton_self _)).2
    simp only [Nat.cast_zero, zero_add] at hfirst
    linarith
  · intro hwide p hp
    rw [rates_truncated] at hp
    obtain ⟨i, hi', rfl⟩ := List.mem_map.1 hp
    have hend := (end_truncated hw hlt hwide a b).1
    have hnonneg : 0 ≤ (i : α) * w := mul_nonneg (Nat.cast_nonneg i) hw.le
    have hindex : ((i + 1 : ℕ) : α) * w ≤ (truncated a b lo hi w).numBins * w :=
      mul_le_mul_of_nonneg_right (Nat.cast_le.2 (List.mem_range.1 hi')) hw.le
    push_cast at hindex
    constructor <;> linarith

/-- No rate of a law is negative if the rate of exceedance does not grow with the magnitude. -/
theorem rates_truncated_nonneg (hpow : Monotone (Elementary.powTen : α → α)) (hb : 0 ≤ b)
    (hw : 0 < w) {p : α × α} (hp : p ∈ (truncated a b lo hi w).rates) : 0 ≤ p.2 := by
  rw [rates_truncated] at hp
  obtain ⟨i, -, rfl⟩ := List.mem_map.1 hp
  refine sub_nonneg.2 (hpow (sub_le_sub_left (mul_le_mul_of_nonneg_left ?_ hb) _))
  have hindex : (i : α) * w ≤ (i + 1 : ℕ) * w :=
    mul_le_mul_of_nonneg_right (Nat.cast_le.2 i.le_succ) hw.le
  linarith

/-- The bins of a law that makes sense. They ascend, and their rates add up to the rate between the lower
magnitude and the end of the last bin. As many bins are taken as end within half a width of the upper
magnitude, or one if the range is shorter than half a width; only then a magnitude lies beyond the range.
The overall rate is that of the range exactly if the last bin ends with the range, unless the rate of
exceedance is the same at different magnitudes. -/
theorem truncated_bins_cover {law : Recurrence α} (hlaw : law = .truncated a b lo hi w)
    (h : law.fault? = none) :
    law.rates.length = law.numBins ∧ (law.rates.map (·.1)).Pairwise (· < ·) ∧
    (law.rates.map (·.2)).sum = exceedanceRate a b lo - exceedanceRate a b (lo + law.numBins * w) ∧
    ((∀ p ∈ law.rates, lo ≤ p.1 ∧ p.1 ≤ hi) ↔ w ≤ 2 * (hi - lo)) ∧
    (w ≤ 2 * (hi - lo) → |lo + law.numBins * w - hi| ≤ w / 2) ∧
    (2 * (hi - lo) < w → law.numBins = 1) ∧
    (b ≠ 0 → Function.Injective (Elementary.powTen : α → α) →
      ((law.rates.map (·.2)).sum = exceedanceRate a b lo - exceedanceRate a b hi ↔
        lo + law.numBins * w = hi)) := by
  subst hlaw
  obtain ⟨hw, hlt⟩ := fault?_truncated_eq_none_iff.1 h
  have hsum := sum_snd_rates_truncated a b lo hi w
  refine ⟨length_rates _, pairwise_fst_rates hw, hsum, fst_rates_truncated_mem_iff hw hlt a b,
    fun hwide => ?_, fun hwide => numBins_truncated_of_lt hw hlt hwide a b, fun hb hpow => ?_⟩
  · obtain ⟨hle, hgt⟩ := end_truncated hw hlt hwide a b
    rw [abs_le]
    constructor <;> linarith
  · rw [hsum, sub_right_inj]
    unfold exceedanceRate
    rw [hpow.eq_iff, sub_right_inj, mul_right_inj' hb]

end

/-! ### Powers of ten -/

open RealFunctions

/-- A law between the magnitudes 5 and 7 with bins of one half: all of its rate is in four bins. -/
theorem truncated_bins_cover_halves : ∃ law : Recurrence ℝ, law = .truncated 3 1 5 7 (1 / 2) ∧
    law.fault? = none ∧ law.rates.length = 4 ∧
    (law.rates.map (·.2)).sum = exceedanceRate 3 1 5 - exceedanceRate 3 1 7 := by
  have hfault : (truncated 3 1 5 7 (1 / 2) : Recurrence ℝ).fault? = none :=
    fault?_truncated_eq_none_iff.2 ⟨by norm_num, by norm_num⟩
  have hbins : (truncated 3 1 5 7 (1 / 2) : Recurrence ℝ).numBins = 4 := by
    refine numBins_truncated_eq ?_ ?_ 3 1 (by decide) (.inr ?_) ?_ <;> norm_num
  obtain ⟨hlength, -, -, -, -, -, htotal⟩ := truncated_bins_cover rfl hfault
  refine ⟨_, rfl, hfault, hlength.trans hbins, ?_⟩
  refine (htotal one_ne_zero powTen_strictMono.injective).2 ?_
  rw [hbins]
  norm_num

/-- One bin of width 3/2 is taken for the magnitudes from 5 to 6 and also for those from 5 to 7: there it
has a rate from beyond the range, here a part of the rate is missing. The bin of width 1/2 for the
magnitudes from 5 to 5.1 has its magnitude beyond them. -/
theorem truncated_bins_miss :
    (∃ law : Recurrence ℝ, law = .truncated 3 1 5 6 (3 / 2) ∧ law.fault? = none ∧
      exceedanceRate 3 1 5 - exceedanceRate 3 1 6 < (law.rates.map (·.2)).sum) ∧
    (∃ law : Recurrence ℝ, law = .truncated 3 1 5 7 (3 / 2) ∧ law.fault? = none ∧
      (law.rates.map (·.2)).sum < exceedanceRate 3 1 5 - exceedanceRate 3 1 7) ∧
    ∃ law : Recurrence ℝ, law = .truncated 3 1 5 (51 / 10) (1 / 2) ∧ law.fault? = none ∧
      ¬ ∀ p ∈ law.rates, 5 ≤ p.1 ∧ p.1 ≤ 51 / 10 := by
  have hanti : StrictAnti (exceedanceRate 3 1 : ℝ → ℝ) := fun x y hxy =>
    powTen_strictMono (by linarith)
  have hone : ∀ hi : ℝ, 5 < hi → hi ≤ 7 → (truncated 3 1 5 hi (3 / 2)).numBins = 1 := by
    intro hi hlt hle
    refine numBins_truncated_eq (by norm_num) hlt 3 1 Nat.one_pos (.inl rfl) ?_
    push_cast
    linarith
  refine ⟨⟨_, rfl, fault?_truncated_eq_none_iff.2 (by norm_num), ?_⟩,
    ⟨_, rfl, fault?_truncated_eq_none_iff.2 (by norm_num), ?_⟩,
    ⟨_, rfl, fault?_truncated_eq_none_iff.2 (by norm_num), ?_⟩⟩
  · rw [sum_snd_rates_truncated, hone 6 (by norm_num) (by norm_num)]
    exact sub_lt_sub_left (hanti (by norm_num)) _
  · rw [sum_snd_rates_truncated, hone 7 (by norm_num) (by norm_num)]
    exact sub_lt_sub_left (hanti (by norm_num)) _
  · rw [fst_rates_truncated_mem_iff (by norm_num) (by norm_num)]
    norm_num

end Recurrence

end SeismicHazard
