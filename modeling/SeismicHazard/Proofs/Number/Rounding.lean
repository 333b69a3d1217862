import SeismicHazard.Proofs.Number.Double

/-!
# Rounding to the nearest double

The arithmetic of doubles computes some leading digits of an exact result and whether the rest is zero,
below, at or above one half, and then shifts and rounds. What comes out is the double to whose interval the
exact result belongs.

* `Double.Represents`: a number known by its integer part and what is left of it.
* `Double.roundWithAccuracy_eq_finite`: rounding gives the double that has the number in its interval.
* `Double.mul_eq_finite`, `Double.div_eq_finite`: so do products and quotients.
-/

namespace SeismicHazard

namespace Double

open Float.Model Float.Model.UnpackedFloat Shortest

/-! ### Numbers that are known up to the rest of their last half -/

section

variable {em : ExtendedMantissa} {x : ℚ} {r : ℕ}

/-- The whole halves of what is represented. -/
def halves (em : ExtendedMantissa) : ℕ := 2 * em.mantissa + em.roundBit.toNat

/-- Whether a number has the given halves, and the rest below that. -/
def Represents (em : ExtendedMantissa) (x : ℚ) : Prop :=
  if em.stickyBit then (halves em : ℚ) < 2 * x ∧ 2 * x < halves em + 1 else 2 * x = halves em

theorem halves_mod_two (em : ExtendedMantissa) : halves em % 2 = em.roundBit.toNat := by
  have := em.roundBit.toNat_le
  unfold halves
  omega

namespace Represents

theorem halves_le (h : Represents em x) : (halves em : ℚ) ≤ 2 * x ∧ 2 * x < halves em + 1 := by
  unfold Represents at h
  split at h
  · exact ⟨h.1.le, h.2⟩
  · rw [h]
    exact ⟨le_rfl, lt_add_one _⟩

theorem mantissa_le (h : Represents em x) : (em.mantissa : ℚ) ≤ x ∧ x < em.mantissa + 1 := by
  have hround : (em.roundBit.toNat : ℚ) ≤ 1 := by exact_mod_cast em.roundBit.toNat_le
  have hnonneg : (0 : ℚ) ≤ em.roundBit.toNat := Nat.cast_nonneg _
  have hhalves : (halves em : ℚ) = 2 * em.mantissa + em.roundBit.toNat := by
    push_cast [halves]
    rfl
  constructor
  · linarith [h.halves_le.1]
  · linarith [h.halves_le.2]

/-- The last bit goes to the rest. -/
theorem shiftRightOne (h : Represents em x) : Represents em.shiftRightOne (x / 2) := by
  have hhalves : halves em.shiftRightOne = em.mantissa := by
    have hbit : (em.mantissa % 2 != 0).toNat = em.mantissa % 2 := by
      rcases Nat.mod_two_eq_zero_or_one em.mantissa with h | h <;> rw [h] <;> rfl
    simp only [halves, ExtendedMantissa.shiftRightOne, hbit]
    omega
  have htwice : 2 * (x / 2) = x := by ring
  unfold Represents
  rw [hhalves, htwice]
  by_cases hexact : em.roundBit = false ∧ em.stickyBit = false
  · obtain ⟨hround, hsticky⟩ := hexact
    have hx : 2 * x = halves em := by
      unfold Represents at h
      rwa [if_neg (by simp [hsticky])] at h
    rw [if_neg (by simp [ExtendedMantissa.shiftRightOne, hround, hsticky])]
    simp only [halves, hround, Bool.toNat_false, Nat.add_zero, Nat.cast_mul, Nat.cast_ofNat] at hx
    linarith
  · have hsticky : em.shiftRightOne.stickyBit = true := by
      rw [not_and_or, Bool.not_eq_false, Bool.not_eq_false] at hexact
      simpa [ExtendedMantissa.shiftRightOne] using hexact
    rw [if_pos hsticky]
    refine ⟨lt_of_le_of_ne h.mantissa_le.1 fun heq => hexact ?_, h.mantissa_le.2⟩
    -- a number without a rest has neither of the bits
    have hle := h.halves_le.1
    rw [← heq] at hle
    have hround : em.roundBit = false := by
      have : halves em ≤ 2 * em.mantissa := by exact_mod_cast hle
      have := halves_mod_two em
      rw [← Bool.toNat_eq_zero]
      unfold halves at *
      omega
    refine ⟨hround, ?_⟩
    unfold Represents at h
    by_contra hsticky
    rw [if_pos (by simpa using hsticky), ← heq] at h
    have := h.1
    simp [halves, hround] at this

theorem shiftRight (h : Represents em x) (n : ℕ) : Represents (em >>> n) (x / 2 ^ n) := by
  change Represents (n.repeat ExtendedMantissa.shiftRightOne em) _
  induction n with
  | zero => simpa [Nat.repeat] using h
  | succ n ih =>
    rw [pow_succ, ← div_div]
    exact ih.shiftRightOne

end Represents

theorem represents_exact (n : ℕ) :
    Represents (ExtendedMantissa.ofMantissaAndAccuracy n .exact) n := by
  simp [Represents, halves, ExtendedMantissa.ofMantissaAndAccuracy]

theorem represents_fraction {num den : ℕ} (h : num < den) (n : ℕ) :
    Represents (ExtendedMantissa.ofMantissaAndAccuracy n (accuracyOfFraction num den))
      (n + num / den) := by
  have hden : (0 : ℚ) < den := by exact_mod_cast Nat.zero_lt_of_lt h
  have hlt : (num : ℚ) / den < 1 := (div_lt_one hden).2 (by exact_mod_cast h)
  unfold accuracyOfFraction
  by_cases hzero : num = 0
  · rw [if_pos hzero, hzero, Nat.cast_zero, zero_div, add_zero]
    exact represents_exact n
  · have hpos : (0 : ℚ) < num / den := div_pos (by exact_mod_cast Nat.pos_of_ne_zero hzero) hden
    rw [if_neg hzero]
    rcases hcompare : compare (2 * num) den with _ | _ | _
    · have hhalf : 2 * ((num : ℚ) / den) < 1 := by
        rw [← mul_div_assoc, div_lt_one hden]
        exact_mod_cast compare_lt_iff_lt.1 hcompare
      simp only [Represents, halves, ExtendedMantissa.ofMantissaAndAccuracy, if_true, Bool.toNat_false,
        Nat.add_zero, Nat.cast_mul, Nat.cast_ofNat]
      constructor
      · linarith
      · linarith
    · have hhalf : 2 * ((num : ℚ) / den) = 1 := by
        rw [← mul_div_assoc, div_eq_one_iff_eq hden.ne']
        exact_mod_cast compare_eq_iff_eq.1 hcompare
      simp only [Represents, halves, ExtendedMantissa.ofMantissaAndAccuracy, Bool.false_eq_true, if_false,
        Bool.toNat_true, Nat.cast_add, Nat.cast_mul, Nat.cast_ofNat, Nat.cast_one]
      linarith
    · have hhalf : 1 < 2 * ((num : ℚ) / den) := by
        rw [← mul_div_assoc, one_lt_div hden]
        exact_mod_cast compare_gt_iff_gt.1 hcompare
      simp only [Represents, halves, ExtendedMantissa.ofMantissaAndAccuracy, if_true, Bool.toNat_true,
        Nat.cast_add, Nat.cast_mul, Nat.cast_ofNat, Nat.cast_one]
      constructor
      · linarith
      · linarith

/-- Whether an integer is nearest to a number; between two that are equally near, it is even. -/
def IsNearest (r : ℕ) (x : ℚ) : Prop :=
  2 * r - 1 ≤ 2 * x ∧ 2 * x ≤ 2 * r + 1 ∧ (r % 2 = 1 → 2 * r - 1 < 2 * x ∧ 2 * x < 2 * r + 1)

theorem IsNearest.of_lt {r : ℕ} (hlo : 2 * (r : ℚ) - 1 < 2 * x) (hhi : 2 * x < 2 * (r : ℚ) + 1) :
    IsNearest r x :=
  ⟨hlo.le, hhi.le, fun _ => ⟨hlo, hhi⟩⟩

/-- Rounding gives the nearest integer. -/
theorem Represents.isNearest (h : Represents em x) : IsNearest em.roundedMantissa x := by
  obtain ⟨n, roundBit, stickyBit⟩ := em
  cases roundBit with
  | false => cases stickyBit with
    | false =>
      replace h : 2 * x = (2 * n : ℕ) := h
      push_cast at h
      change IsNearest n x
      exact .of_lt (by linarith) (by linarith)
    | true =>
      replace h : ((2 * n : ℕ) : ℚ) < 2 * x ∧ 2 * x < (2 * n : ℕ) + 1 := h
      push_cast at h
      change IsNearest n x
      exact .of_lt (by linarith) (by linarith)
  | true => cases stickyBit with
    | false =>
      replace h : 2 * x = (2 * n + 1 : ℕ) := h
      push_cast at h
      change IsNearest (n + n % 2) x
      rcases Nat.mod_two_eq_zero_or_one n with heven | hodd
      · rw [heven, add_zero]
        exact ⟨by linarith, by linarith, fun hodd => by omega⟩
      · rw [hodd]
        unfold IsNearest
        push_cast
        exact ⟨by linarith, by linarith, fun hodd' => by omega⟩
    | true =>
      replace h : ((2 * n + 1 : ℕ) : ℚ) < 2 * x ∧ 2 * x < (2 * n + 1 : ℕ) + 1 := h
      push_cast at h
      change IsNearest (n + 1) x
      refine .of_lt ?_ ?_
      · push_cast
        linarith
      · push_cast
        linarith

theorem IsNearest.le {n : ℕ} (h : IsNearest r x) (hx : x < n) : r ≤ n := by
  have hlt : (r : ℚ) < n + 1 := by linarith [h.1]
  have : r < n + 1 := by exact_mod_cast hlt
  omega

theorem IsNearest.ge {n : ℕ} (h : IsNearest r x) (hx : n ≤ x) : n ≤ r := by
  have hlt : (n : ℚ) < r + 1 := by linarith [h.2.1]
  have : n < r + 1 := by exact_mod_cast hlt
  omega

end

/-! ### Rounding to 53 bits -/

section

variable {accuracy : Accuracy} {sign : Sign} {em : ExtendedMantissa} {n r m : ℕ} {e e' q : ℤ} {v : ℚ}

theorem targetExponent_eq (n : ℕ) (e : ℤ) :
    Format.binary64.targetExponent (totalExponent n e) = max ((n.log2 : ℤ) + e - 52) (-1074) := by
  simp only [Format.targetExponent, totalExponent, Format.mantissaBits, Format.minExponent]
  norm_num
  omega

/-- Too many bits are shifted out. -/
theorem shiftToTargetExponent_eq
    (h : e ≤ Format.binary64.targetExponent (totalExponent n e)) :
    shiftToTargetExponent Format.binary64 n e accuracy =
      (ExtendedMantissa.ofMantissaAndAccuracy n accuracy >>>
        (Format.binary64.targetExponent (totalExponent n e) - e).toNat,
        Format.binary64.targetExponent (totalExponent n e)) := by
  unfold shiftToTargetExponent shiftToExponent
  rw [Prod.mk.injEq]
  exact ⟨rfl, by omega⟩

theorem shiftToTargetExponent_of_lt (hr : r < 2 ^ 53) (he : -1074 ≤ e) :
    shiftToTargetExponent Format.binary64 r e .exact = (⟨r, false, false⟩, e) := by
  have hlog : r.log2 ≤ 52 := by
    rcases Nat.eq_zero_or_pos r with rfl | hpos
    · decide
    · have := (Nat.log2_lt hpos.ne').2 hr
      omega
  have hshift : (Format.binary64.targetExponent (totalExponent r e) - e).toNat = 0 := by
    rw [targetExponent_eq]
    omega
  unfold shiftToTargetExponent shiftToExponent
  simp only [hshift]
  rw [Prod.mk.injEq]
  exact ⟨rfl, by omega⟩

/-- A carry beyond 53 bits. -/
theorem shiftToTargetExponent_carry (he : -1074 ≤ e) :
    shiftToTargetExponent Format.binary64 (2 ^ 53) e .exact = (⟨2 ^ 52, false, false⟩, e + 1) := by
  have hshift : (Format.binary64.targetExponent (totalExponent (2 ^ 53) e) - e).toNat = 1 := by
    rw [targetExponent_eq, Nat.log2_two_pow]
    omega
  unfold shiftToTargetExponent shiftToExponent
  simp only [hshift]
  rfl

/-- Rounding gives a number of 53 bits, or the power of two above. -/
theorem roundWithAccuracy_of_rounded (hr : r ≤ 2 ^ 53) (hpos : 0 < r) (he : -1074 ≤ e)
    (hfirst : shiftToTargetExponent Format.binary64 n e' accuracy = (em, e))
    (hround : em.roundedMantissa = r) :
    roundWithAccuracy Format.binary64 sign n e' accuracy =
      if r < 2 ^ 53 then .finite sign r e hpos else .finite sign (2 ^ 52) (e + 1) (by decide) := by
  unfold roundWithAccuracy
  simp only [hfirst, hround]
  by_cases hlt : r < 2 ^ 53
  · simp only [shiftToTargetExponent_of_lt hlt he, if_pos hlt, dif_neg hpos.ne']
  · obtain rfl : r = 2 ^ 53 := by omega
    simp only [shiftToTargetExponent_carry he, if_neg hlt]
    rfl

/-- The first step of rounding: of the number in the new unit 53 bits are before the point, or fewer at
the least exponent, and the nearest integer is taken. -/
theorem exists_shiftToTargetExponent (hbits : 2 ^ 52 ≤ n ∨ e ≤ -1074)
    (h : Represents (ExtendedMantissa.ofMantissaAndAccuracy n accuracy) (v / 2 ^ e)) : ∃ em e',
      shiftToTargetExponent Format.binary64 n e accuracy = (em, e') ∧ -1074 ≤ e' ∧
        IsNearest em.roundedMantissa (v / 2 ^ e') ∧ v / 2 ^ e' < (2 ^ 53 : ℕ) ∧
          (-1074 < e' → (2 ^ 52 : ℕ) ≤ v / 2 ^ e') := by
  have hlog : 2 ^ 52 ≤ n → 52 ≤ n.log2 := fun hn => (Nat.le_log2 (by omega)).2 hn
  have htarget := targetExponent_eq n e
  obtain ⟨target, htarget'⟩ : ∃ t, t = Format.binary64.targetExponent (totalExponent n e) := ⟨_, rfl⟩
  rw [← htarget'] at htarget
  have hle : e ≤ target := by
    rcases hbits with hn | he
    · have := hlog hn
      omega
    · omega
  obtain ⟨k, hk⟩ : ∃ k : ℕ, k = (target - e).toNat := ⟨_, rfl⟩
  have hscale : v / 2 ^ e / 2 ^ k = v / 2 ^ target := by
    rw [div_div, ← zpow_natCast, ← zpow_add₀ (by norm_num)]
    congr 2
    omega
  have hmantissa : (ExtendedMantissa.ofMantissaAndAccuracy n accuracy).mantissa = n := by
    rcases accuracy with _ | _ | _ | _ <;> rfl
  obtain ⟨hlo, hhi⟩ := hmantissa ▸ h.mantissa_le
  refine ⟨ExtendedMantissa.ofMantissaAndAccuracy n accuracy >>> k, target, ?_, by omega, ?_, ?_,
    fun hgt => ?_⟩
  · rw [hk, htarget']
    exact shiftToTargetExponent_eq (htarget' ▸ hle)
  · rw [← hscale]
    exact (h.shiftRight k).isNearest
  · have hbound : n + 1 ≤ 2 ^ 53 * 2 ^ k := by
      rw [← Nat.pow_add]
      exact Nat.lt_log2_self.trans_le (Nat.pow_le_pow_right (by decide) (by omega))
    have hbound' : (n + 1 : ℚ) ≤ (2 ^ 53 : ℕ) * 2 ^ k := by exact_mod_cast hbound
    rw [← hscale, div_lt_iff₀ (by positivity)]
    exact hhi.trans_le hbound'
  · have hbound : 2 ^ 52 * 2 ^ k ≤ n := by
      have hne : n ≠ 0 := by
        rintro rfl
        have : Nat.log2 0 = 0 := by decide
        omega
      rw [← Nat.pow_add, show 52 + k = n.log2 by omega]
      exact Nat.log2_self_le hne
    have hbound' : ((2 ^ 52 : ℕ) : ℚ) * 2 ^ k ≤ n := by exact_mod_cast hbound
    rw [← hscale, le_div_iff₀ (by positivity)]
    exact hbound'.trans hlo

/-- A number belongs to the interval of the double whose significand is nearest to it in its unit. -/
theorem contains_of_isNearest (hpos : 0 < r) (h : IsNearest r (v / 2 ^ e))
    (hlow : -1074 < e → (2 ^ 52 : ℕ) ≤ v / 2 ^ e) : (around r e).Contains v := by
  obtain ⟨x, hx⟩ : ∃ x, x = v / 2 ^ e := ⟨_, rfl⟩
  have hunit : (0 : ℚ) < 2 ^ (e - 2) := by positivity
  have hv : v = 4 * x * 2 ^ (e - 2) := by
    rw [hx, zpow_sub₀ (by norm_num)]
    field_simp
    norm_num
  rw [← hx] at h hlow
  have hlo : ((around r e).lo : ℚ) ≤ 4 * x := by
    unfold around Interval.ofBinary
    simp only
    split
    · next hbinade =>
      obtain ⟨rfl, he⟩ := atBinade_iff.1 hbinade
      have := hlow he
      rw [Nat.cast_sub (by decide)]
      push_cast at *
      linarith
    · rw [Nat.cast_sub (by omega)]
      push_cast
      linarith [h.1]
  have hlo' : r % 2 = 1 → ((around r e).lo : ℚ) < 4 * x := by
    intro hodd
    unfold around Interval.ofBinary
    simp only
    split
    · next hbinade =>
      obtain ⟨rfl, he⟩ := atBinade_iff.1 hbinade
      omega
    · rw [Nat.cast_sub (by omega)]
      push_cast
      linarith [(h.2.2 hodd).1]
  have hhi : ((around r e).hi : ℚ) = 4 * r + 2 := by
    simp [around, Interval.ofBinary]
  unfold Interval.Contains
  rw [unit_around, hv, hhi]
  split
  · exact ⟨mul_le_mul_of_nonneg_right hlo hunit.le,
      mul_le_mul_of_nonneg_right (by linarith [h.2.1]) hunit.le⟩
  · next hopen =>
    have hodd := closed_around.1 (Bool.not_eq_true _ ▸ hopen)
    exact ⟨mul_lt_mul_of_pos_right (hlo' hodd) hunit,
      mul_lt_mul_of_pos_right (by linarith [(h.2.2 hodd).2]) hunit⟩

/-- A number whose significand has a carry belongs to the interval of the power of two. -/
theorem contains_of_carry (he : -1074 ≤ e) (h : IsNearest (2 ^ 53) (v / 2 ^ e))
    (hlt : v / 2 ^ e < (2 ^ 53 : ℕ)) : (around (2 ^ 52) (e + 1)).Contains v := by
  have hunit : (0 : ℚ) < 2 ^ (e + 1 - 2) := by positivity
  have hv : v = 2 * (v / 2 ^ e) * 2 ^ (e + 1 - 2) := by
    rw [show e + 1 - 2 = e - 1 by ring, zpow_sub_one₀ (by norm_num)]
    field_simp
  have hbinade : atBinade (2 ^ 52) (e + 1) = true := atBinade_iff.2 ⟨rfl, by omega⟩
  have hlo : (around (2 ^ 52) (e + 1)).lo = 2 ^ 54 - 1 := by
    simp only [around, Interval.ofBinary, hbinade, if_true]
    norm_num
  have hhi : (around (2 ^ 52) (e + 1)).hi = 2 ^ 54 + 2 := by
    simp only [around, Interval.ofBinary]
    norm_num
  have hclosed : (around (2 ^ 52) (e + 1)).closed = true := by
    rw [← Bool.not_eq_false, closed_around]
    decide
  unfold Interval.Contains
  rw [if_pos hclosed, unit_around, hlo, hhi]
  have hlow := h.1
  push_cast at hlow hlt
  constructor
  · rw [hv]
    refine mul_le_mul_of_nonneg_right ?_ hunit.le
    norm_num at *
    linarith
  · rw [hv]
    refine mul_le_mul_of_nonneg_right ?_ hunit.le
    norm_num at *
    linarith

/-- Every number in the interval of a double is greater than half the least double. -/
theorem lt_of_contains (hm : Canonical m q) (hv : (around m q).Contains v) : 2 ^ (-1075 : ℤ) < v := by
  have hunit : (2 : ℚ) ^ (-1076 : ℤ) ≤ 2 ^ (q - 2) :=
    zpow_le_zpow_right₀ (by norm_num) (by have := hm.exponent_ge; omega)
  have hhalf : (2 : ℚ) ^ (-1075 : ℤ) = 2 * 2 ^ (-1076 : ℤ) := by
    rw [← zpow_one_add₀ (by norm_num)]
    norm_num
  have hpos : (0 : ℚ) < 2 ^ (-1076 : ℤ) := by positivity
  have hlo := lo_around_le m q
  have hm0 := hm.pos
  rw [hhalf]
  rcases Nat.eq_or_lt_of_le hm0 with hone | htwo
  · have hv' := (hv.lt (closed_around.2 (by omega))).1
    rw [unit_around] at hv'
    have : (2 : ℚ) ≤ (around m q).lo := by exact_mod_cast (by omega : 2 ≤ (around m q).lo)
    nlinarith
  · have hv' := hv.le.1
    rw [unit_around] at hv'
    have : (6 : ℚ) ≤ (around m q).lo := by exact_mod_cast (by omega : 6 ≤ (around m q).lo)
    nlinarith

/-- **Rounding.** A number that is known well enough is rounded to the double that has it in its
interval. -/
theorem roundWithAccuracy_eq_finite (hm : Canonical m q) (hv : (around m q).Contains v)
    (hbits : 2 ^ 52 ≤ n ∨ e ≤ -1074)
    (h : Represents (ExtendedMantissa.ofMantissaAndAccuracy n accuracy) (v / 2 ^ e)) :
    roundWithAccuracy Format.binary64 sign n e accuracy = .finite sign m q hm.pos := by
  obtain ⟨em, e', hfirst, he', hnear, hhigh, hlow⟩ := exists_shiftToTargetExponent hbits h
  obtain ⟨r, hr⟩ : ∃ r, r = em.roundedMantissa := ⟨_, rfl⟩
  rw [← hr] at hnear
  have hle : r ≤ 2 ^ 53 := hnear.le hhigh
  have hge : -1074 < e' → 2 ^ 52 ≤ r := fun hgt => hnear.ge (hlow hgt)
  have hpos : 0 < r := by
    by_contra hzero
    obtain rfl : r = 0 := by omega
    have hleast : e' - 1 = -1075 := by
      have : ¬ -1074 < e' := fun hgt => absurd (hge hgt) (by decide)
      omega
    -- only half the least double or less is rounded to zero
    have hhalf : v / 2 ^ e' ≤ 1 / 2 := by
      have := hnear.2.1
      push_cast at this
      linarith
    rw [div_le_iff₀ (by positivity), one_div, mul_comm, ← zpow_sub_one₀ (by norm_num), hleast] at hhalf
    exact absurd hhalf (lt_of_contains hm hv).not_ge
  rw [roundWithAccuracy_of_rounded hle hpos he' hfirst hr.symm]
  split
  · next hlt =>
    have hcontains := contains_of_isNearest hpos hnear hlow
    have hcanonical : Canonical r e' := by
      refine ⟨hpos, hlt, he', ?_, hge⟩
      by_contra hgt
      have hexponent := hm.exponent_le
      exact not_contains_of_exponent_lt hm (hge (by omega)) (by omega) hv hcontains
    obtain ⟨rfl, rfl⟩ := hm.eq_of_contains hcanonical hv hcontains
    rfl
  · next hge' =>
    obtain rfl : r = 2 ^ 53 := by omega
    have hcontains := contains_of_carry he' hnear hhigh
    have hcanonical : Canonical (2 ^ 52) (e' + 1) := by
      refine ⟨by decide, by decide, by omega, ?_, fun _ => le_rfl⟩
      by_contra hgt
      have hexponent := hm.exponent_le
      exact not_contains_of_exponent_lt hm le_rfl (by omega) hv hcontains
    obtain ⟨rfl, rfl⟩ := hm.eq_of_contains hcanonical hv hcontains
    rfl

end

/-! ### Products and quotients -/

section

variable {s₁ s₂ : Sign} {m₁ m₂ m : ℕ} {e₁ e₂ q : ℤ} {h₁ : 0 < m₁} {h₂ : 0 < m₂}

/-- A product of enough bits is the double that has the exact product in its interval. -/
theorem mul_eq_finite (hm : Canonical m q)
    (hv : (around m q).Contains (m₁ * 2 ^ e₁ * (m₂ * 2 ^ e₂))) (hbits : 2 ^ 52 ≤ m₁ * m₂) :
    mul Format.binary64 (.finite s₁ m₁ e₁ h₁) (.finite s₂ m₂ e₂ h₂) =
      .finite (s₁ * s₂) m q hm.pos := by
  refine roundWithAccuracy_eq_finite hm hv (.inl hbits) ?_
  have hscale : (m₁ * 2 ^ e₁ * (m₂ * 2 ^ e₂) : ℚ) / 2 ^ (e₁ + e₂) = (m₁ * m₂ : ℕ) := by
    rw [zpow_add₀ (by norm_num)]
    push_cast
    field_simp
  rw [hscale]
  exact represents_exact _

/-- The exponent of a quotient is small enough for 53 bits. -/
theorem two_pow_le_div (h₁ : 0 < m₁) (h₂ : 0 < m₂) {k : ℕ} (hk : 53 + m₂.log2 ≤ m₁.log2 + k) :
    2 ^ 52 ≤ m₁ <<< k / m₂ := by
  rw [Nat.le_div_iff_mul_le h₂, Nat.shiftLeft_eq]
  calc 2 ^ 52 * m₂ ≤ 2 ^ 52 * 2 ^ (m₂.log2 + 1) := Nat.mul_le_mul_left _ Nat.lt_log2_self.le
    _ = 2 ^ (53 + m₂.log2) := by
      rw [← Nat.pow_add]
      congr 1
      omega
    _ ≤ 2 ^ (m₁.log2 + k) := Nat.pow_le_pow_right (by decide) hk
    _ = 2 ^ m₁.log2 * 2 ^ k := Nat.pow_add _ _ _
    _ ≤ m₁ * 2 ^ k := Nat.mul_le_mul_right _ (Nat.log2_self_le h₁.ne')

/-- A quotient is the double that has the exact quotient in its interval. -/
theorem div_eq_finite (hm : Canonical m q)
    (hv : (around m q).Contains (m₁ * 2 ^ e₁ / (m₂ * 2 ^ e₂))) :
    div Format.binary64 (.finite s₁ m₁ e₁ h₁) (.finite s₂ m₂ e₂ h₂) =
      .finite (s₁ / s₂) m q hm.pos := by
  obtain ⟨target, htarget⟩ : ∃ t, t = min (e₁ - e₂)
      (Format.binary64.targetExponent (totalExponent m₁ e₁ - totalExponent m₂ e₂)) := ⟨_, rfl⟩
  obtain ⟨k, hk⟩ : ∃ k, k = (e₁ - e₂ - target).toNat := ⟨_, rfl⟩
  have hcore : divCore Format.binary64 m₁ e₁ m₂ e₂ =
      (m₁ <<< k / m₂, target, accuracyOfFraction (m₁ <<< k % m₂) m₂) := by
    rw [hk, htarget]
    rfl
  have hbound : target = min (e₁ - e₂) (max (m₁.log2 + e₁ - (m₂.log2 + e₂) - 53) (-1074)) := by
    rw [htarget]
    simp only [Format.targetExponent, totalExponent, Format.mantissaBits, Format.minExponent]
    norm_num
    omega
  have hscale : (m₁ * 2 ^ e₁ / (m₂ * 2 ^ e₂) : ℚ) / 2 ^ target =
      (m₁ <<< k / m₂ : ℕ) + (m₁ <<< k % m₂ : ℕ) / m₂ := by
    have hne : (m₂ : ℚ) ≠ 0 := by exact_mod_cast h₂.ne'
    have hwhole : ((m₁ <<< k : ℕ) : ℚ) = m₂ * (m₁ <<< k / m₂ : ℕ) + (m₁ <<< k % m₂ : ℕ) := by
      exact_mod_cast (Nat.div_add_mod _ _).symm
    have hexponent : (2 : ℚ) ^ e₁ = 2 ^ k * 2 ^ e₂ * 2 ^ target := by
      rw [← zpow_natCast, ← zpow_add₀ (by norm_num), ← zpow_add₀ (by norm_num)]
      congr 1
      omega
    rw [Nat.shiftLeft_eq] at hwhole ⊢
    push_cast at hwhole
    rw [hexponent]
    field_simp
    linarith
  have hrepresents := represents_fraction (Nat.mod_lt (m₁ <<< k) h₂) (m₁ <<< k / m₂)
  rw [← hscale] at hrepresents
  simp only [UnpackedFloat.div, hcore]
  refine roundWithAccuracy_eq_finite hm hv ?_ hrepresents
  by_cases hle : target ≤ -1074
  · exact .inr hle
  · exact .inl (two_pow_le_div h₁ h₂ (by omega))

end

end Double

end SeismicHazard
