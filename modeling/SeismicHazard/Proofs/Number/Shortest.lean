import Mathlib.Algebra.Order.Field.Power
import Mathlib.Data.Rat.Floor
import Mathlib.Tactic.FieldSimp
import Mathlib.Tactic.Linarith
import Mathlib.Tactic.Positivity
import Mathlib.Tactic.Ring
import SeismicHazard.Number.Shortest

/-!
# Numbers are told apart by their shortest decimals

The decimal that is chosen for a double lies in the interval of the reals that are nearest to it, and the
intervals of two doubles do not meet. It has no trailing zero: without it the decimal would lie on a
coarser grid, where the search would have stopped before.

* `Shortest.Interval.Contains`: the reals of an interval.
* `Shortest.Interval.hit_eq_none`: when a grid misses an interval.
* `Shortest.Canonical`: significand and exponent of a positive double.
* `Shortest.Canonical.eq_of_contains`: intervals of different doubles do not meet.
* `shortest_spec`: what is known of the decimal.
* `shortest_inj`: doubles with the same decimal are the same.
-/

namespace SeismicHazard

namespace Shortest

/-! ### Intervals -/

/-- A power of a base over its power with the opposite exponent, where one of the two is one. -/
theorem pow_toNat_div_pow_toNat (b : ℚ) (e : ℤ) :
    b ^ e.toNat / b ^ (-e).toNat = b ^ e := by
  rcases le_total 0 e with he | he
  · have hneg : (-e).toNat = 0 := by omega
    have hpos : (e.toNat : ℤ) = e := by omega
    rw [hneg, pow_zero, div_one, ← zpow_natCast, hpos]
  · have hpos : e.toNat = 0 := by omega
    have hneg : ((-e).toNat : ℤ) = -e := by omega
    rw [hpos, pow_zero, one_div, ← zpow_natCast, hneg, zpow_neg, inv_inv]

namespace Interval

variable {i : Interval} {tie : Tie} {x y : ℚ} {e : ℤ} {c : ℕ}

/-- A quarter of the last place. -/
def unit (i : Interval) : ℚ := i.num / i.den

/-- Whether a real lies in the interval. -/
def Contains (i : Interval) (x : ℚ) : Prop :=
  if i.closed then i.lo * i.unit ≤ x ∧ x ≤ i.hi * i.unit else i.lo * i.unit < x ∧ x < i.hi * i.unit

/-- An interval around a number, all of it positive. -/
structure Proper (i : Interval) : Prop where
  num_pos : 0 < i.num
  den_pos : 0 < i.den
  lo_pos : 0 < i.lo
  lo_lt : i.lo < i.mid
  lt_hi : i.mid < i.hi

namespace Proper

theorem unit_pos (h : i.Proper) : 0 < i.unit :=
  div_pos (by exact_mod_cast h.num_pos) (by exact_mod_cast h.den_pos)

theorem lo_lt_mid (h : i.Proper) : i.lo * i.unit < i.mid * i.unit :=
  mul_lt_mul_of_pos_right (by exact_mod_cast h.lo_lt) h.unit_pos

theorem mid_lt_hi (h : i.Proper) : i.mid * i.unit < i.hi * i.unit :=
  mul_lt_mul_of_pos_right (by exact_mod_cast h.lt_hi) h.unit_pos

end Proper

namespace Contains

theorem le (h : i.Contains x) : i.lo * i.unit ≤ x ∧ x ≤ i.hi * i.unit := by
  unfold Contains at h
  split at h
  · exact h
  · exact ⟨h.1.le, h.2.le⟩

theorem lt (h : i.Contains x) (hopen : i.closed = false) :
    i.lo * i.unit < x ∧ x < i.hi * i.unit := by
  unfold Contains at h
  rw [if_neg (by simp [hopen])] at h
  exact h

theorem of_lt (hlo : i.lo * i.unit < x) (hhi : x < i.hi * i.unit) : i.Contains x := by
  unfold Contains
  split
  · exact ⟨hlo.le, hhi.le⟩
  · exact ⟨hlo, hhi⟩

/-- An interval has every number between one of its own and the middle. -/
theorem of_le_mid (h : i.Contains x) (hi : i.Proper) (hxy : x ≤ y) (hy : y ≤ i.mid * i.unit) :
    i.Contains y := by
  have hmid := hi.mid_lt_hi
  by_cases hclosed : i.closed
  · unfold Contains
    rw [if_pos hclosed]
    exact ⟨h.le.1.trans hxy, hy.trans hmid.le⟩
  · exact of_lt ((h.lt (by simpa using hclosed)).1.trans_le hxy) (hy.trans_lt hmid)

theorem of_mid_le (h : i.Contains x) (hi : i.Proper) (hyx : y ≤ x) (hy : i.mid * i.unit ≤ y) :
    i.Contains y := by
  have hmid := hi.lo_lt_mid
  by_cases hclosed : i.closed
  · unfold Contains
    rw [if_pos hclosed]
    exact ⟨hmid.le.trans hy, hyx.trans h.le.2⟩
  · exact of_lt (hmid.trans_le hy) (hyx.trans_lt (h.lt (by simpa using hclosed)).2)

theorem pos (h : i.Contains x) (hi : i.Proper) : 0 < x :=
  lt_of_lt_of_le (mul_pos (by exact_mod_cast hi.lo_pos) hi.unit_pos) h.le.1

end Contains

/-! ### Grids -/

/-- The scaled numbers that are compared are fractions with a common denominator. -/
theorem scaled_le_iff (hden : 0 < i.den) (bound c : ℕ) (e : ℤ) :
    bound * (i.num * Nat.pow 10 (-e).toNat) ≤ c * (i.den * Nat.pow 10 e.toNat) ↔
      bound * i.unit ≤ c * (10 : ℚ) ^ e := by
  have hd : (0 : ℚ) < i.den := by exact_mod_cast hden
  have ht : (0 : ℚ) < 10 ^ (-e).toNat := by positivity
  rw [← pow_toNat_div_pow_toNat 10 e, unit, ← mul_div_assoc, ← mul_div_assoc,
    div_le_div_iff₀ hd ht]
  rw [← Nat.cast_le (α := ℚ)]
  push_cast [Nat.pow_eq]
  rw [show (bound : ℚ) * (i.num * 10 ^ (-e).toNat) = bound * i.num * 10 ^ (-e).toNat by ring,
    show (c : ℚ) * (i.den * 10 ^ e.toNat) = c * 10 ^ e.toNat * i.den by ring]

theorem le_scaled_iff (hden : 0 < i.den) (bound c : ℕ) (e : ℤ) :
    c * (i.den * Nat.pow 10 e.toNat) ≤ bound * (i.num * Nat.pow 10 (-e).toNat) ↔
      c * (10 : ℚ) ^ e ≤ bound * i.unit := by
  have hd : (0 : ℚ) < i.den := by exact_mod_cast hden
  have ht : (0 : ℚ) < 10 ^ (-e).toNat := by positivity
  rw [← pow_toNat_div_pow_toNat 10 e, unit, ← mul_div_assoc, ← mul_div_assoc,
    div_le_div_iff₀ ht hd]
  rw [← Nat.cast_le (α := ℚ)]
  push_cast [Nat.pow_eq]
  rw [show (bound : ℚ) * (i.num * 10 ^ (-e).toNat) = bound * i.num * 10 ^ (-e).toNat by ring,
    show (c : ℚ) * (i.den * 10 ^ e.toNat) = c * 10 ^ e.toNat * i.den by ring]

theorem holds_iff (hden : 0 < i.den) :
    i.holds (i.num * Nat.pow 10 (-e).toNat) (i.den * Nat.pow 10 e.toNat) c = true ↔
      i.Contains (c * 10 ^ e) := by
  unfold holds Contains
  split
  · rw [Bool.and_eq_true, decide_eq_true_iff, decide_eq_true_iff, scaled_le_iff hden,
      le_scaled_iff hden]
  · rw [Bool.and_eq_true, decide_eq_true_iff, decide_eq_true_iff, ← not_le, ← not_le,
      le_scaled_iff hden, scaled_le_iff hden, not_le, not_le]

/-- What is hit lies in the interval. -/
theorem hit_eq_some (hi : i.Proper) (h : i.hit tie e = some c) : i.Contains (c * 10 ^ e) := by
  rw [← holds_iff hi.den_pos]
  unfold hit at h
  simp only at h
  split at h
  · cases h
  · next hc _ =>
    cases h
    exact hc
  · next _ hc =>
    cases h
    exact hc
  · next hc hc' =>
    split at h
    · cases h
      exact hc
    · split at h
      · cases h
        exact hc'
      · split at h
        · cases h
          exact hc'
        · split at h
          · cases h
            exact hc
          · cases h
            exact hc'

/-- If nothing is hit, then neither of the neighbours of the number on the grid lies in the interval. -/
theorem holds_of_hit_eq_none (h : i.hit tie e = none) {c : ℕ}
    (hc : c = i.mid * (i.num * Nat.pow 10 (-e).toNat) / (i.den * Nat.pow 10 e.toNat)) :
    i.holds (i.num * Nat.pow 10 (-e).toNat) (i.den * Nat.pow 10 e.toNat) c = false ∧
      i.holds (i.num * Nat.pow 10 (-e).toNat) (i.den * Nat.pow 10 e.toNat) (c + 1) = false := by
  subst hc
  unfold hit at h
  simp only at h
  split at h
  · next hc hc' => exact ⟨hc, hc'⟩
  · cases h
  · cases h
  · split at h
    · cases h
    · split at h
      · cases h
      · split at h
        · cases h
        · split at h
          · cases h
          · cases h

/-- If nothing is hit, then nothing on the grid lies in the interval. -/
theorem hit_eq_none (hi : i.Proper) (h : i.hit tie e = none) (c : ℕ) :
    ¬ i.Contains (c * 10 ^ e) := by
  obtain ⟨a, ha⟩ : ∃ a, a = i.mid * (i.num * Nat.pow 10 (-e).toNat) / (i.den * Nat.pow 10 e.toNat) :=
    ⟨_, rfl⟩
  obtain ⟨hbelow, habove⟩ := holds_of_hit_eq_none h ha
  have hpos : 0 < i.den * Nat.pow 10 e.toNat := Nat.mul_pos hi.den_pos (Nat.pow_pos (by omega))
  have hten : (0 : ℚ) < 10 ^ e := by positivity
  have hle : a * (10 : ℚ) ^ e ≤ i.mid * i.unit := by
    rw [← le_scaled_iff hi.den_pos, ha]
    exact Nat.div_mul_le_self _ _
  have hlt : i.mid * i.unit < (a + 1 : ℕ) * (10 : ℚ) ^ e := by
    rw [← not_le, ← le_scaled_iff hi.den_pos, not_le, ha, Nat.mul_comm _ (i.den * _)]
    exact Nat.lt_mul_div_succ _ hpos
  intro hc
  rcases Nat.lt_or_ge a c with hac | hca
  · have hcast : ((a + 1 : ℕ) : ℚ) ≤ c := by exact_mod_cast hac
    have := hc.of_mid_le hi (mul_le_mul_of_nonneg_right hcast hten.le) hlt.le
    rw [← holds_iff hi.den_pos, habove] at this
    cases this
  · have hcast : (c : ℚ) ≤ a := by exact_mod_cast hca
    have := hc.of_le_mid hi (mul_le_mul_of_nonneg_right hcast hten.le) hle
    rw [← holds_iff hi.den_pos, hbelow] at this
    cases this

/-- A grid that is finer than the upper half of the interval hits it. -/
theorem exists_hit (hi : i.Proper) (tie : Tie) (h : 10 ^ e < (i.hi - i.mid : ℚ) * i.unit) :
    ∃ c, i.hit tie e = some c := by
  cases hhit : i.hit tie e with
  | some c => exact ⟨c, rfl⟩
  | none =>
    exfalso
    have hten : (0 : ℚ) < 10 ^ e := by positivity
    have hunit := hi.unit_pos
    -- the first number of the grid above the middle lies below the upper bound
    obtain ⟨c, hc⟩ : ∃ c : ℕ, c = ⌊i.mid * i.unit / 10 ^ e⌋₊ + 1 := ⟨_, rfl⟩
    have hlt : i.mid * i.unit < c * (10 : ℚ) ^ e := by
      rw [← div_lt_iff₀ hten, hc]
      exact_mod_cast Nat.lt_floor_add_one _
    have hle : c * (10 : ℚ) ^ e ≤ i.mid * i.unit + 10 ^ e := by
      have := Nat.floor_le (a := i.mid * i.unit / (10 : ℚ) ^ e) (by positivity)
      rw [le_div_iff₀ hten] at this
      rw [hc]
      push_cast
      linarith
    refine hit_eq_none hi hhit c (Contains.of_lt (hi.lo_lt_mid.trans hlt) (hle.trans_lt ?_))
    linarith

/-! ### The search -/

/-- What is found lies in the interval, and nothing was hit on a coarser grid. -/
theorem search_eq_some {steps : ℕ} {top : ℤ} (hi : i.Proper)
    (h : i.search tie steps top = some (c, e)) :
    i.Contains (c * 10 ^ e) ∧ e ≤ top ∧ ∀ e', e < e' → e' ≤ top → i.hit tie e' = none := by
  induction steps generalizing top with
  | zero => cases h
  | succ steps ih =>
    unfold search at h
    cases hhit : i.hit tie top with
    | some c' =>
      rw [hhit] at h
      cases h
      refine ⟨hit_eq_some hi hhit, le_rfl, ?_⟩
      intro e' hlt hle
      omega
    | none =>
      rw [hhit] at h
      obtain ⟨hc, hle, hnone⟩ := ih h
      refine ⟨hc, by omega, ?_⟩
      intro e' hlt hle'
      rcases eq_or_lt_of_le hle' with rfl | hlt'
      · exact hhit
      · exact hnone e' hlt (by omega)

theorem exists_search {steps : ℕ} {top : ℤ} (hhit : ∃ c, i.hit tie (top - steps) = some c) :
    ∃ c e, i.search tie (steps + 1) top = some (c, e) := by
  induction steps generalizing top with
  | zero =>
    obtain ⟨c, hc⟩ := hhit
    rw [Nat.cast_zero, sub_zero] at hc
    exact ⟨c, top, by rw [search, hc]⟩
  | succ steps ih =>
    unfold search
    cases htop : i.hit tie top with
    | some c => exact ⟨c, top, rfl⟩
    | none =>
      apply ih
      rw [show top - 1 - (steps : ℤ) = top - (steps + 1 : ℕ) by push_cast; ring]
      exact hhit

/-- Nothing that is found ends in zero if the next grid is too coarse for the interval. -/
theorem search_mod_ten {steps : ℕ} {top : ℤ} (hi : i.Proper) (htop : i.hi * i.unit < 10 ^ (top + 1))
    (h : i.search tie steps top = some (c, e)) : c % 10 ≠ 0 := by
  obtain ⟨hc, hle, hnone⟩ := search_eq_some hi h
  intro hzero
  obtain ⟨a, rfl⟩ : ∃ a, c = a * 10 := ⟨c / 10, by omega⟩
  have hcoarse : ((a * 10 : ℕ) : ℚ) * 10 ^ e = a * 10 ^ (e + 1) := by
    rw [zpow_add_one₀ (by norm_num)]
    push_cast
    ring
  rw [hcoarse] at hc
  rcases eq_or_lt_of_le hle with rfl | hlt
  · have ha : (1 : ℚ) ≤ a := by
      have hpos := hc.pos hi
      rcases Nat.eq_zero_or_pos a with rfl | ha
      · simp at hpos
      · exact_mod_cast ha
    have hten : (0 : ℚ) < 10 ^ (e + 1) := by positivity
    have := hc.le.2
    nlinarith
  · exact hit_eq_none hi (hnone (e + 1) (by omega) (by omega)) a hc

end Interval

/-! ### Doubles -/

/-- The significand and the exponent of a positive double: the significand has 53 bits, or fewer below
the least exponent but one. -/
structure Canonical (m : ℕ) (q : ℤ) : Prop where
  pos : 0 < m
  lt : m < 2 ^ 53
  exponent_ge : -1074 ≤ q
  exponent_le : q ≤ 971
  ge_of_lt : -1074 < q → 2 ^ 52 ≤ m

/-- Whether smaller doubles lie closer together. -/
def atBinade (m : ℕ) (q : ℤ) : Bool := m == 1 <<< 52 && decide (-1074 < q)

/-- The reals that are nearest to a double. -/
def around (m : ℕ) (q : ℤ) : Interval := .ofBinary m q (atBinade m q)

section

variable {m m' : ℕ} {q q' : ℤ} {x : ℚ}

theorem unit_around (m : ℕ) (q : ℤ) : (around m q).unit = 2 ^ (q - 2) := by
  unfold around Interval.ofBinary Interval.unit
  simp only [Nat.one_shiftLeft]
  rw [← pow_toNat_div_pow_toNat, neg_sub]
  push_cast
  rfl

theorem atBinade_iff : atBinade m q = true ↔ m = 2 ^ 52 ∧ -1074 < q := by
  simp [atBinade, Nat.one_shiftLeft]

theorem lo_around_le (m : ℕ) (q : ℤ) : 4 * m - 2 ≤ (around m q).lo := by
  unfold around Interval.ofBinary
  simp only
  split
  · omega
  · omega

theorem proper_around (h : 0 < m) : (around m q).Proper where
  num_pos := by simp [around, Interval.ofBinary, Nat.one_shiftLeft]
  den_pos := by simp [around, Interval.ofBinary, Nat.one_shiftLeft]
  lo_pos := by
    have := lo_around_le m q
    omega
  lo_lt := by
    simp only [around, Interval.ofBinary]
    split
    · omega
    · omega
  lt_hi := by
    simp only [around, Interval.ofBinary]
    omega

theorem closed_around : (around m q).closed = false ↔ m % 2 = 1 := by
  simp [around, Interval.ofBinary]

/-- Of two doubles with the same exponent the smaller one has its interval below the other's. -/
theorem not_contains_of_lt (hlt : m < m') (h : (around m q).Contains x) :
    ¬ (around m' q).Contains x := by
  intro h'
  have hunit : (0 : ℚ) < 2 ^ (q - 2) := by positivity
  have hhi : x ≤ (4 * m + 2 : ℕ) * 2 ^ (q - 2) := unit_around m q ▸ h.le.2
  have hlo : ((around m' q).lo : ℚ) * 2 ^ (q - 2) ≤ x := unit_around m' q ▸ h'.le.1
  have hbetween : (around m' q).lo ≤ 4 * m + 2 := by
    exact_mod_cast le_of_mul_le_mul_right (hlo.trans hhi) hunit
  have := lo_around_le m' q
  -- the bounds meet, but of two neighbours one is odd and does not have them
  have heq : (around m' q).lo = 4 * m + 2 := by omega
  rcases Nat.mod_two_eq_zero_or_one m with heven | hodd
  · have hodd' : m' % 2 = 1 := by omega
    have hlo' := (h'.lt (closed_around.2 hodd')).1
    rw [heq, unit_around] at hlo'
    exact absurd hhi (not_le.2 hlo')
  · have hhi' := (h.lt (closed_around.2 hodd)).2
    rw [unit_around] at hhi'
    rw [heq] at hlo
    exact absurd hlo (not_le.2 hhi')

/-- A double with 53 bits and a greater exponent has its interval above that of another double, also if it
is beyond the greatest double. -/
theorem not_contains_of_exponent_lt (hm : Canonical m q) (hge : 2 ^ 52 ≤ m') (hlt : q < q')
    (h : (around m q).Contains x) : ¬ (around m' q').Contains x := by
  intro h'
  have hunit : (0 : ℚ) < 2 ^ (q - 2) := by positivity
  have hhi : x ≤ (4 * m + 2 : ℕ) * 2 ^ (q - 2) := unit_around m q ▸ h.le.2
  have hscale : (2 : ℚ) * 2 ^ (q - 2) ≤ 2 ^ (q' - 2) := by
    rw [← zpow_one_add₀ (by norm_num)]
    exact zpow_le_zpow_right₀ (by norm_num) (by omega)
  have hlo : ((around m' q').lo : ℚ) * (2 * 2 ^ (q - 2)) ≤ x :=
    (mul_le_mul_of_nonneg_left hscale (Nat.cast_nonneg _)).trans (unit_around m' q' ▸ h'.le.1)
  have hbetween : (around m' q').lo * 2 ≤ 4 * m + 2 := by
    rw [← mul_assoc] at hlo
    exact_mod_cast le_of_mul_le_mul_right (hlo.trans hhi) hunit
  have hlt' := hm.lt
  -- the bounds meet at most where the smaller double is the last one of its binade, which is odd
  have hlower : 2 ^ 54 - 1 ≤ (around m' q').lo := by
    rcases eq_or_lt_of_le hge with heq | hgt
    · have hbinade : atBinade m' q' = true :=
        atBinade_iff.2 ⟨heq.symm, by have := hm.exponent_ge; omega⟩
      simp only [around, Interval.ofBinary, hbinade, if_true]
      omega
    · have := lo_around_le m' q'
      omega
  have hodd : m % 2 = 1 := by omega
  have hhi' := (h.lt (closed_around.2 hodd)).2
  rw [unit_around] at hhi'
  have hlast : ((4 * m + 2 : ℕ) : ℚ) ≤ (around m' q').lo * 2 := by
    exact_mod_cast (by omega : 4 * m + 2 ≤ (around m' q').lo * 2)
  have := mul_le_mul_of_nonneg_right hlast hunit.le
  rw [← mul_assoc] at hlo
  exact absurd (this.trans hlo) (not_le.2 hhi')

/-- A real is nearest to one double only. -/
theorem Canonical.eq_of_contains (hm : Canonical m q) (hm' : Canonical m' q')
    (h : (around m q).Contains x) (h' : (around m' q').Contains x) : m = m' ∧ q = q' := by
  have hge := hm.exponent_ge
  have hge' := hm'.exponent_ge
  rcases lt_trichotomy q q' with hlt | rfl | hgt
  · exact absurd h' (not_contains_of_exponent_lt hm (hm'.ge_of_lt (by omega)) hlt h)
  · rcases lt_trichotomy m m' with hlt | rfl | hgt
    · exact absurd h' (not_contains_of_lt hlt h)
    · exact ⟨rfl, rfl⟩
    · exact absurd h (not_contains_of_lt hgt h')
  · exact absurd h (not_contains_of_exponent_lt hm' (hm.ge_of_lt (by omega)) hgt h')

end

/-! ### The range of the search -/

/-- A power of two lies between powers of ten. -/
theorem two_pow_bounds : (10 : ℚ) ^ 3010 ≤ 2 ^ 10000 ∧ (2 : ℚ) ^ 10000 ≤ 10 ^ 3011 := by
  have h : 10 ^ 3010 ≤ 2 ^ 10000 ∧ 2 ^ 10000 ≤ 10 ^ 3011 := by decide +kernel
  exact ⟨by exact_mod_cast h.1, by exact_mod_cast h.2⟩

/-- Powers of two and of ten are compared by their exponents, with a margin. -/
theorem two_zpow_lt_ten_zpow {a b : ℤ} (h : 3011 * a < 10000 * b) (h' : 3010 * a < 10000 * b) :
    (2 : ℚ) ^ a < 10 ^ b := by
  obtain ⟨hlo, hhi⟩ := two_pow_bounds
  have hbound : ((2 : ℚ) ^ 10000) ^ a ≤ 10 ^ max (3011 * a) (3010 * a) := by
    rcases le_total 0 a with ha | ha
    · calc ((2 : ℚ) ^ 10000) ^ a ≤ (10 ^ 3011) ^ a := zpow_le_zpow_left₀ ha (by positivity) hhi
        _ = 10 ^ (3011 * a) := by
          rw [← zpow_natCast, ← zpow_mul]
          norm_num
        _ ≤ 10 ^ max (3011 * a) (3010 * a) :=
          zpow_le_zpow_right₀ (by norm_num) (le_max_left _ _)
    · have hneg : 0 ≤ -a := by omega
      calc ((2 : ℚ) ^ 10000) ^ a ≤ (10 ^ 3010) ^ a := by
            have := inv_anti₀ (by positivity) (zpow_le_zpow_left₀ hneg (by positivity) hlo)
            simpa only [← zpow_neg, neg_neg] using this
        _ = 10 ^ (3010 * a) := by
          rw [← zpow_natCast, ← zpow_mul]
          norm_num
        _ ≤ 10 ^ max (3011 * a) (3010 * a) :=
          zpow_le_zpow_right₀ (by norm_num) (le_max_right _ _)
  have hpow : ∀ (c : ℚ) (k : ℤ), (c ^ k) ^ 10000 = (c ^ 10000) ^ k := by
    intro c k
    rw [← zpow_natCast, ← zpow_natCast, ← zpow_mul, ← zpow_mul, mul_comm]
  refine lt_of_pow_lt_pow_left₀ 10000 (by positivity) ?_
  rw [hpow]
  refine hbound.trans_lt ?_
  rw [← zpow_natCast, ← zpow_mul]
  exact zpow_lt_zpow_right₀ (by norm_num) (by push_cast; omega)

theorem ten_zpow_lt_two_zpow {a b : ℤ} (h : 10000 * b < 3011 * a) (h' : 10000 * b < 3010 * a) :
    (10 : ℚ) ^ b < 2 ^ a := by
  have := two_zpow_lt_ten_zpow (a := -a) (b := -b) (by omega) (by omega)
  rw [zpow_neg, zpow_neg] at this
  exact (inv_lt_inv₀ (by positivity) (by positivity)).1 this

section

variable {m m' : ℕ} {q q' : ℤ}

theorem Canonical.log2_le (h : Canonical m q) : m.log2 ≤ 52 := by
  have := (Nat.log2_lt h.pos.ne').2 h.lt
  omega

/-- The grid above the first one that is tried has no number in the interval but zero. -/
theorem Canonical.hi_lt (h : Canonical m q) :
    (around m q).hi * (around m q).unit < 10 ^ (exponentAbove (q + (m.log2 : ℤ) + 1) + 1) := by
  have hlog := h.log2_le
  have hge := h.exponent_ge
  have hle := h.exponent_le
  have hm : 4 * m + 2 < 2 ^ (m.log2 + 3) := by
    have := Nat.lt_log2_self (n := m)
    rw [Nat.pow_succ] at this
    rw [Nat.pow_succ, Nat.pow_succ, Nat.pow_succ]
    omega
  calc ((around m q).hi : ℚ) * (around m q).unit = (4 * m + 2 : ℕ) * 2 ^ (q - 2) := by
        rw [unit_around]
        rfl
    _ < (2 ^ (m.log2 + 3) : ℕ) * 2 ^ (q - 2) :=
        mul_lt_mul_of_pos_right (by exact_mod_cast hm) (by positivity)
    _ = 2 ^ (q + (m.log2 : ℤ) + 1) := by
        rw [Nat.cast_pow, ← zpow_natCast, Nat.cast_ofNat, ← zpow_add₀ (by norm_num)]
        congr 1
        push_cast
        ring
    _ < 10 ^ (exponentAbove (q + (m.log2 : ℤ) + 1) + 1) := by
        apply two_zpow_lt_ten_zpow
        · unfold exponentAbove
          omega
        · unfold exponentAbove
          omega

/-- The last grid that is tried is finer than half the interval. -/
theorem Canonical.ten_zpow_lt (h : Canonical m q) :
    10 ^ (exponentAbove (q + (m.log2 : ℤ) + 1) - (19 : ℕ)) <
      ((around m q).hi - (around m q).mid : ℚ) * (around m q).unit := by
  have hlog := h.log2_le
  have hge := h.exponent_ge
  have hle := h.exponent_le
  have hhalf : ((around m q).hi - (around m q).mid : ℚ) * (around m q).unit = 2 ^ (q - 1) := by
    have hdiff : ((around m q).hi - (around m q).mid : ℚ) = 2 := by
      simp [around, Interval.ofBinary]
    rw [hdiff, unit_around, ← zpow_one_add₀ (by norm_num)]
    congr 1
    ring
  rw [hhalf]
  apply ten_zpow_lt_two_zpow
  · unfold exponentAbove
    omega
  · unfold exponentAbove
    omega

end

end Shortest

open Shortest

section

variable {tie tie' : Tie} {m m' : ℕ} {q q' : ℤ}

/-- The decimal of a positive double lies in the interval of the reals that are nearest to it, and its last
digit is not zero. -/
theorem shortest_spec (tie : Tie) (h : Canonical m q) : ∃ c e,
    shortest tie m q (atBinade m q) = (c, e) ∧ (around m q).Contains (c * 10 ^ e) ∧ c % 10 ≠ 0 := by
  have hproper := proper_around (q := q) h.pos
  obtain ⟨c, e, hsearch⟩ := Interval.exists_search (Interval.exists_hit hproper tie h.ten_zpow_lt)
  refine ⟨c, e, ?_, (Interval.search_eq_some hproper hsearch).1,
    Interval.search_mod_ten hproper h.hi_lt hsearch⟩
  unfold shortest
  exact congrArg (Option.getD · (0, 0)) hsearch

/-- Positive doubles with the same decimal are the same. -/
theorem shortest_inj (h : Canonical m q) (h' : Canonical m' q')
    (heq : shortest tie m q (atBinade m q) = shortest tie' m' q' (atBinade m' q')) :
    m = m' ∧ q = q' := by
  obtain ⟨c, e, hc, hcontains, -⟩ := shortest_spec tie h
  obtain ⟨c', e', hc', hcontains', -⟩ := shortest_spec tie' h'
  rw [hc, hc', Prod.mk.injEq] at heq
  obtain ⟨rfl, rfl⟩ := heq
  exact h.eq_of_contains h' hcontains hcontains'

end

end SeismicHazard
