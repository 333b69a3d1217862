import SeismicHazard.Proofs.Number.Rounding

/-!
# Decimals are read back

A decimal is read by dividing or multiplying its digits by a power of ten. Its shortest decimal gives a
double back, because it belongs to the interval of that double.

* `Double.limit`: from where on decimals are too large.
* `Decimal.magnitude`: the value of a decimal without its sign.
* `Readable`: numbers that are read back from their decimals.
* `Double.unpack_ofNumeral`: a decimal is read as the double that has it in its interval.
* `Double.readable`: every finite double is read back.
-/

namespace SeismicHazard

/-- The middle between the greatest double and the power of two above it, from where on a decimal is not
near any double. -/
def Double.limit : ℕ := 1 <<< 1024 - 1 <<< 970

namespace Decimal

variable {d : Decimal}

/-- The value of a decimal without its sign. -/
def magnitude (d : Decimal) : ℚ := d.digits * 10 ^ d.exponent

theorem leading_eq (d : Decimal) :
    d.leading = ((d.digitChars.length - 1 : ℕ) : ℤ) + d.exponent := by
  have hlength : 0 < d.digitChars.length := Nat.length_toDigits_pos
  unfold leading
  omega

/-- The power of ten of the leading digit is not above the value. -/
theorem ten_zpow_leading_le (d : Decimal) (h : d.digits ≠ 0) : (10 : ℚ) ^ d.leading ≤ d.magnitude := by
  have hlength : 0 < d.digitChars.length := Nat.length_toDigits_pos
  have hle : 10 ^ (d.digitChars.length - 1) ≤ d.digits := by
    by_contra hlt
    have hpos : 0 < d.digitChars.length - 1 := by
      by_contra hzero
      rw [show d.digitChars.length - 1 = 0 by omega] at hlt
      omega
    have := (Nat.length_toDigits_le_iff (by omega) hpos).2 (not_le.1 hlt)
    unfold digitChars at this hlength
    omega
  rw [leading_eq, zpow_add₀ (by norm_num), zpow_natCast, magnitude]
  exact mul_le_mul_of_nonneg_right (by exact_mod_cast hle) (by positivity)

theorem magnitude_lt (d : Decimal) : d.magnitude < 10 ^ (d.leading + 1) := by
  have hlength : 0 < d.digitChars.length := Nat.length_toDigits_pos
  have hlt : d.digits < 10 ^ d.digitChars.length :=
    (Nat.length_toDigits_le_iff (by omega) hlength).1 le_rfl
  have hleading : d.leading + 1 = (d.digitChars.length : ℤ) + d.exponent := by
    unfold leading
    ring
  rw [hleading, zpow_add₀ (by norm_num), zpow_natCast, magnitude]
  exact mul_lt_mul_of_pos_right (by exact_mod_cast hlt) (by positivity)

end Decimal

/-- Whether a number is read back from its decimal, however that is spelt: as other digits with another
power of ten and the same value. -/
def Readable {α : Type} [DecimalText α] (tie : Tie) (x : α) : Prop :=
  ∃ d, DecimalText.numeral tie x = .finite d ∧ d.IsReduced ∧ d.magnitude < Double.limit ∧
    ∀ d' : Decimal, d'.negative = d.negative → d'.magnitude = d.magnitude →
      DecimalText.read (.finite d') = x

/-- Whether a number is a probability other than zero. -/
def Scalar.IsPositiveProbability {α : Type} [Scalar α] (x : α) : Prop := 0 < x ∧ x ≤ 1

instance {α : Type} [Scalar α] : DecidablePred (Scalar.IsPositiveProbability : α → Prop) := fun _ =>
  inferInstanceAs (Decidable (_ ∧ _))

namespace Double

open Float.Model Float.Model.UnpackedFloat Shortest

/-! ### Exact values -/

section

variable {x y : Float} {sign : Sign} {n m k : ℕ} {e q : ℤ} {v : ℚ}

/-- Whether a double is positive and has the given value, with a significand of 53 bits. -/
def HasValue (x : Float) (v : ℚ) : Prop :=
  ∃ m e h, x.toModel.unpack = .finite .positive m e h ∧ 2 ^ 52 ≤ m ∧ m * 2 ^ e = v

theorem contains_self (hm : 0 < m) (q : ℤ) : (around m q).Contains (m * 2 ^ q) := by
  have hproper := proper_around (q := q) hm
  have hmid : ((around m q).mid : ℚ) * (around m q).unit = m * 2 ^ q := by
    rw [unit_around, zpow_sub₀ (by norm_num)]
    simp only [around, Interval.ofBinary]
    push_cast
    ring
  rw [← hmid]
  exact Interval.Contains.of_lt hproper.lo_lt_mid hproper.mid_lt_hi

/-- A natural number of 53 bits is converted exactly. -/
theorem hasValue_toFloat (hpos : 0 < n) (hlt : n < 2 ^ 53) : HasValue n.toUInt64.toFloat n := by
  have hlog : n.log2 ≤ 52 := by
    have := (Nat.log2_lt hpos.ne').2 hlt
    omega
  obtain ⟨k, hk⟩ : ∃ k, k = 52 - n.log2 := ⟨_, rfl⟩
  have hlo : 2 ^ 52 ≤ n <<< k := by
    rw [Nat.shiftLeft_eq, show 52 = n.log2 + k by omega, Nat.pow_add]
    exact Nat.mul_le_mul_right _ (Nat.log2_self_le hpos.ne')
  have hhi : n <<< k < 2 ^ 53 := by
    rw [Nat.shiftLeft_eq, show 53 = n.log2 + 1 + k by omega, Nat.pow_add]
    exact Nat.mul_lt_mul_of_pos_right Nat.lt_log2_self (by positivity)
  have hcanonical : Canonical (n <<< k) (-k) :=
    ⟨by omega, hhi, by omega, by omega, fun _ => hlo⟩
  have hvalue : ((n <<< k : ℕ) : ℚ) * 2 ^ (-(k : ℤ)) = n := by
    rw [Nat.shiftLeft_eq, zpow_neg, zpow_natCast]
    push_cast
    field_simp
  have hround : UnpackedFloat.round Format.binary64 .positive n 0 =
      .finite .positive (n <<< k) (-k) hcanonical.pos := by
    have htarget := targetExponent_eq n 0
    have hdecrease : decreaseExponent n 0 (Format.binary64.targetExponent (totalExponent n 0)) =
        (n <<< k, -(k : ℤ)) := by
      have hshift : (0 - Format.binary64.targetExponent (totalExponent n 0)).toNat = k := by omega
      simp only [decreaseExponent, hshift]
      rw [zero_sub]
    simp only [UnpackedFloat.round, hdecrease]
    refine roundWithAccuracy_eq_finite hcanonical (contains_self hcanonical.pos _) (.inl hlo) ?_
    rw [mul_div_cancel_right₀ _ (by positivity)]
    exact represents_exact _
  have hnormalize : UnpackedFloat.ofUInt64 Format.binary64 n.toUInt64 =
      .finite .positive (n <<< k) (-k) hcanonical.pos := by
    have hbits : n.toUInt64.toNat = n := by
      change n % 2 ^ 64 = n
      omega
    have hcompare : compare (n : ℤ) 0 = .gt := compare_gt_iff_gt.2 (by omega)
    simp only [UnpackedFloat.ofUInt64, UnpackedFloat.ofNat, UnpackedFloat.ofInt,
      UnpackedFloat.normalize, hbits, hcompare, Int.toNat_natCast, hround]
  refine ⟨_, _, hcanonical.pos, ?_, hlo, hvalue⟩
  change (Float.Model.pack (UnpackedFloat.ofUInt64 Format.binary64 n.toUInt64)).unpack = _
  rw [hnormalize]
  exact unpack_pack hcanonical

/-- The exponent of a double as it is stored. -/
def biased (x : Float) : ℕ := x.toBits.toNat / 2 ^ 52 % 2 ^ 11

/-- The value of a pattern that stands for a number of 53 bits. -/
theorem hasValue_of_fields (hsign : x.toBits.toNat < 2 ^ 63) (hzero : biased x ≠ 0)
    (hall : biased x ≠ 0x7ff) (hvalue : (x.toBits.toNat % 2 ^ 52 + 2 ^ 52) * 2 ^ (biased x - 1075) =
      n * 2 ^ (1075 - biased x)) : HasValue x n := by
  have hparts : parts x.toBits =
      .finite false (x.toBits.toNat % 2 ^ 52 + 2 ^ 52) ((biased x : ℕ) - 1075) :=
    parts_eq_finite.2 ⟨by rw [eq_comm, decide_eq_false_iff_not]; omega, .inr ⟨hzero, hall, rfl, rfl⟩⟩
  refine ⟨_, _, _, unpack_of_parts hparts (by omega), by omega, ?_⟩
  obtain ⟨above, habove⟩ : ∃ k, k = biased x - 1075 := ⟨_, rfl⟩
  obtain ⟨below, hbelow⟩ : ∃ k, k = 1075 - biased x := ⟨_, rfl⟩
  rw [← habove, ← hbelow] at hvalue
  have hcast : ((x.toBits.toNat % 2 ^ 52 + 2 ^ 52 : ℕ) : ℚ) * 2 ^ above = n * 2 ^ below := by
    exact_mod_cast hvalue
  have hpower : (2 : ℚ) ^ ((biased x : ℤ) - 1075) = 2 ^ above / 2 ^ below := by
    rw [← zpow_natCast, ← zpow_natCast, ← zpow_sub₀ (by norm_num)]
    congr 1
    omega
  rw [hpower, ← mul_div_assoc, hcast, mul_div_cancel_right₀ _ (by positivity)]

theorem fields_powerOfTen : ∀ k : Fin Float.exactlyRepresentablePowersOfTen.size,
    let x := Float.exactlyRepresentablePowersOfTen[k]
    x.toBits.toNat < 2 ^ 63 ∧ biased x ≠ 0 ∧ biased x ≠ 0x7ff ∧
      (x.toBits.toNat % 2 ^ 52 + 2 ^ 52) * 2 ^ (biased x - 1075) =
        10 ^ k.1 * 2 ^ (1075 - biased x) := by
  decide +kernel

/-- The powers of ten in the table are exact. -/
theorem hasValue_powerOfTen (h : k < Float.exactlyRepresentablePowersOfTen.size) :
    HasValue Float.exactlyRepresentablePowersOfTen[k] (10 ^ k : ℕ) := by
  obtain ⟨hsign, hzero, hall, hvalue⟩ := fields_powerOfTen ⟨k, h⟩
  exact hasValue_of_fields hsign hzero hall hvalue

theorem unpack_div {a b : ℚ} (hx : HasValue x a) (hy : HasValue y b) (hm : Canonical m q)
    (hv : (around m q).Contains (a / b)) :
    (x / y).toModel.unpack = .finite .positive m q hm.pos := by
  obtain ⟨m₁, e₁, h₁, hx, -, rfl⟩ := hx
  obtain ⟨m₂, e₂, h₂, hy, -, rfl⟩ := hy
  change (Float.Model.pack (UnpackedFloat.div Format.binary64 x.toModel.unpack y.toModel.unpack)).unpack = _
  rw [hx, hy, div_eq_finite hm hv]
  exact unpack_pack hm

theorem unpack_mul {a b : ℚ} (hx : HasValue x a) (hy : HasValue y b) (hm : Canonical m q)
    (hv : (around m q).Contains (a * b)) :
    (x * y).toModel.unpack = .finite .positive m q hm.pos := by
  obtain ⟨m₁, e₁, h₁, hx, hbits, rfl⟩ := hx
  obtain ⟨m₂, e₂, h₂, hy, hbits', rfl⟩ := hy
  change (Float.Model.pack (UnpackedFloat.mul Format.binary64 x.toModel.unpack y.toModel.unpack)).unpack = _
  rw [hx, hy, mul_eq_finite hm hv (hbits.trans (Nat.le_mul_of_pos_right _ h₂))]
  exact unpack_pack hm

end

/-! ### Decimals -/

section

variable {x : Float} {negative : Bool} {n m k : ℕ} {e q : ℤ} {v : ℚ}

theorem limit_eq : (limit : ℚ) = (2 ^ 54 - 1 : ℕ) * 2 ^ (970 : ℤ) := by
  have h : limit = (2 ^ 54 - 1) * 2 ^ 970 := by decide +kernel
  rw [h, Nat.cast_mul, Nat.cast_pow, ← zpow_natCast]
  rfl

theorem limit_lt : (limit : ℚ) < 10 ^ (309 : ℤ) := by
  have h : limit < 10 ^ 309 := by decide +kernel
  exact_mod_cast h

/-- Every number in the interval of a double is below the bound from where on decimals are too large. -/
theorem lt_limit_of_contains (hm : Canonical m q) (hv : (around m q).Contains v) : v < limit := by
  have hq := hm.exponent_le
  have hlt := hm.lt
  by_contra hge
  -- it would belong to the power of two above the greatest double
  refine not_contains_of_exponent_lt hm le_rfl (show q < 972 by omega) hv ?_
  have hclosed : (around (2 ^ 52) 972).closed = true := rfl
  have hhi : v ≤ (2 ^ 54 + 2 : ℕ) * 2 ^ (970 : ℤ) := by
    calc v ≤ (4 * m + 2 : ℕ) * 2 ^ (q - 2) := unit_around m q ▸ hv.le.2
      _ ≤ (2 * 2 ^ 54 : ℕ) * 2 ^ (969 : ℤ) :=
        mul_le_mul (by exact_mod_cast (by omega : 4 * m + 2 ≤ 2 * 2 ^ 54))
          (zpow_le_zpow_right₀ (by norm_num) (by omega)) (by positivity) (by positivity)
      _ = (2 ^ 54 : ℕ) * 2 ^ (970 : ℤ) := by
        rw [show (970 : ℤ) = 969 + 1 from rfl, zpow_add_one₀ (by norm_num), Nat.cast_mul]
        ring
      _ ≤ (2 ^ 54 + 2 : ℕ) * 2 ^ (970 : ℤ) :=
        mul_le_mul_of_nonneg_right (by norm_num) (by positivity)
  unfold Interval.Contains
  rw [if_pos hclosed, unit_around]
  exact ⟨limit_eq ▸ not_lt.1 hge, hhi⟩

theorem digits_pos_of_contains (hm : Canonical m q) (hv : (around m q).Contains (n * 10 ^ e)) :
    0 < n := by
  by_contra hzero
  have := hv.pos (proper_around hm.pos)
  rw [show n = 0 by omega] at this
  simp at this

/-- A decimal is computed as the double that has it in its interval. -/
theorem ofScientific_eq_finite (hm : Canonical m q) (hv : (around m q).Contains (n * 10 ^ e)) :
    UnpackedFloat.ofScientific Format.binary64 n e = .finite .positive m q hm.pos := by
  have hpos := digits_pos_of_contains hm hv
  have hbits : (2 : ℤ) ^ Format.binary64.exponentBits = 2048 := rfl
  have hlarge : ¬ e > 2048 := by
    intro hgt
    have hn : (1 : ℚ) ≤ n := by exact_mod_cast hpos
    have hten : (10 : ℚ) ^ (309 : ℤ) ≤ 10 ^ e := zpow_le_zpow_right₀ (by norm_num) (by omega)
    have hlt := (lt_limit_of_contains hm hv).trans limit_lt
    exact absurd (hten.trans (le_mul_of_one_le_left (by positivity) hn)) hlt.not_ge
  have hsmall : ¬ e < -(2048 + (n.log2 : ℤ)) := by
    intro hlt
    have hn : (n : ℚ) < 2 ^ ((n.log2 : ℤ) + 1) := by
      have := Nat.lt_log2_self (n := n)
      exact_mod_cast this
    have hten : (10 : ℚ) ^ e < 2 ^ e := ten_zpow_lt_two_zpow (by omega) (by omega)
    have hlow := lt_of_contains hm hv
    refine absurd hlow (not_lt.2 ?_)
    calc (n : ℚ) * 10 ^ e ≤ 2 ^ ((n.log2 : ℤ) + 1) * 2 ^ e :=
          mul_le_mul hn.le hten.le (by positivity) (by positivity)
      _ = 2 ^ ((n.log2 : ℤ) + 1 + e) := (zpow_add₀ (by norm_num) _ _).symm
      _ ≤ 2 ^ (-1075 : ℤ) := zpow_le_zpow_right₀ (by norm_num) (by omega)
  unfold UnpackedFloat.ofScientific
  rw [dif_neg hpos.ne', hbits, if_neg hlarge, if_neg hsmall]
  have hmantissa : Format.binary64.mantissaBits = 53 := rfl
  split
  · next hnonneg =>
    have hvalue : ((n <<< Format.binary64.mantissaBits : ℕ) : ℚ) *
        2 ^ (-(Format.binary64.mantissaBits : ℤ)) * ((10 ^ e.toNat : ℕ) * 2 ^ (0 : ℤ)) = n * 10 ^ e := by
      have hten : ((10 ^ e.toNat : ℕ) : ℚ) = 10 ^ e := by
        rw [Nat.cast_pow, ← zpow_natCast, Int.toNat_of_nonneg hnonneg]
        rfl
      rw [hten, Nat.shiftLeft_eq, zpow_neg, zpow_natCast, zpow_zero, mul_one]
      push_cast
      field_simp
    rw [← hvalue] at hv
    refine mul_eq_finite hm hv ?_
    rw [hmantissa, Nat.shiftLeft_eq]
    have hten : 0 < 10 ^ e.toNat := by positivity
    nlinarith
  · next hneg =>
    have hvalue : (n : ℚ) * 2 ^ (0 : ℤ) / ((10 ^ (-e).toNat : ℕ) * 2 ^ (0 : ℤ)) = n * 10 ^ e := by
      have hten : ((10 ^ (-e).toNat : ℕ) : ℚ) = 10 ^ (-e) := by
        rw [Nat.cast_pow, ← zpow_natCast, Int.toNat_of_nonneg (by omega)]
        rfl
      rw [hten, zpow_zero, mul_one, mul_one, zpow_neg, div_inv_eq_mul]
    rw [← hvalue] at hv
    exact div_eq_finite hm hv

/-- Digits that are multiplied with a power of ten or divided by one. -/
theorem unpack_ofScientific (hm : Canonical m q) (divided : Bool)
    (hv : (around m q).Contains (n * 10 ^ (if divided then -(k : ℤ) else k))) :
    (Float.ofScientific n divided k).toModel.unpack = .finite .positive m q hm.pos := by
  have hpos := digits_pos_of_contains hm hv
  unfold Float.ofScientific
  split
  · next h =>
    cases divided with
    | true =>
      have hdiv : (n : ℚ) / (10 ^ k : ℕ) = n * 10 ^ (-(k : ℤ)) := by
        rw [zpow_neg, zpow_natCast, div_eq_mul_inv]
        push_cast
        rfl
      exact unpack_div (hasValue_toFloat hpos h.1) (hasValue_powerOfTen _) hm (hdiv ▸ hv)
    | false =>
      have hmul : (n : ℚ) * (10 ^ k : ℕ) = n * 10 ^ (k : ℤ) := by
        rw [zpow_natCast]
        push_cast
        rfl
      exact unpack_mul (hasValue_toFloat hpos h.1) (hasValue_powerOfTen _) hm (hmul ▸ hv)
  · have hexponent : (if divided then Int.negOfNat k else Int.ofNat k) =
        if divided then -(k : ℤ) else k := by
      cases divided with
      | true => exact Int.negOfNat_eq
      | false => rfl
    change (Float.Model.pack (UnpackedFloat.ofScientific Format.binary64 n
      (if divided then Int.negOfNat k else Int.ofNat k))).unpack = _
    rw [hexponent, ofScientific_eq_finite hm hv]
    exact unpack_pack hm

/-- A decimal is read as the double that has it in its interval. -/
theorem unpack_ofDecimal (hm : Canonical m q) (hv : (around m q).Contains (n * 10 ^ e)) :
    (ofDecimal n e).toModel.unpack = .finite .positive m q hm.pos := by
  have hpos := digits_pos_of_contains hm hv
  obtain ⟨d, hd⟩ : ∃ d : Decimal, d = ⟨false, n, e⟩ := ⟨_, rfl⟩
  have hmagnitude : d.magnitude = n * 10 ^ e := by rw [hd, Decimal.magnitude]
  have hleading : e + ((Nat.toDigits 10 n).length : ℤ) = d.leading + 1 := by
    rw [hd, Decimal.leading, Decimal.digitChars]
    ring
  have hlarge : ¬ 400 < d.leading + 1 := by
    have hlt := ((d.ten_zpow_leading_le (by rw [hd]; exact hpos.ne')).trans_lt
      (hmagnitude ▸ lt_limit_of_contains hm hv)).trans limit_lt
    have := (zpow_lt_zpow_iff_right₀ (by norm_num)).1 hlt
    omega
  have hsmall : ¬ d.leading + 1 < -400 := by
    have hten : (10 : ℚ) ^ (-324 : ℤ) < 2 ^ (-1075 : ℤ) := ten_zpow_lt_two_zpow (by norm_num) (by norm_num)
    have hlt := (hten.trans (hmagnitude ▸ lt_of_contains hm hv)).trans d.magnitude_lt
    have := (zpow_lt_zpow_iff_right₀ (by norm_num)).1 hlt
    omega
  unfold ofDecimal
  rw [if_neg (by simpa using hpos.ne')]
  simp only [hleading]
  rw [if_neg hlarge, if_neg hsmall]
  split
  · next hneg =>
    refine unpack_ofScientific hm true ?_
    rw [if_pos rfl, Int.toNat_of_nonneg (by omega), neg_neg]
    exact hv
  · next hnonneg =>
    refine unpack_ofScientific hm false ?_
    have hvalue : ((n * Nat.pow 10 e.toNat : ℕ) : ℚ) * 10 ^ (((0 : ℕ) : ℤ)) = n * 10 ^ e := by
      rw [Nat.cast_zero, zpow_zero, mul_one, Nat.pow_eq, Nat.cast_mul, Nat.cast_pow, ← zpow_natCast,
        Int.toNat_of_nonneg (by omega)]
      rfl
    rw [if_neg (by decide), hvalue]
    exact hv

theorem unpack_neg (hm : Canonical m q) (h : x.toModel.unpack = .finite .positive m q hm.pos) :
    (-x).toModel.unpack = .finite .negative m q hm.pos := by
  change (Float.Model.pack (UnpackedFloat.neg x.toModel.unpack)).unpack = _
  rw [h]
  exact unpack_pack hm

/-- A decimal with a sign is read as the double that has it in its interval. -/
theorem unpack_ofNumeral (hm : Canonical m q) {d : Decimal} (hv : (around m q).Contains d.magnitude) :
    (ofNumeral (.finite d)).toModel.unpack = .finite (signOf d.negative) m q hm.pos := by
  have hread := unpack_ofDecimal hm hv
  obtain ⟨negative, digits, exponent⟩ := d
  cases negative with
  | false => exact hread
  | true => exact unpack_neg hm hread

end

/-! ### Finite doubles -/

section

variable {x y : Float} {negative : Bool} {e : ℤ}

/-- Whether a double is a number and no infinity. -/
def IsFinite (x : Float) : Prop := ∃ negative m e, parts x.toBits = .finite negative m e

theorem eq_of_unpack_eq (h : x.toModel.unpack = y.toModel.unpack) : x = y := by
  have hx : Float.ofModel (.pack x.toModel.unpack) = x := ofBits_toBits x
  have hy : Float.ofModel (.pack y.toModel.unpack) = y := ofBits_toBits y
  rw [← hx, h, hy]

theorem eq_zero_of_parts (h : parts x.toBits = .finite negative 0 e) :
    x = if negative then -0.0 else 0.0 := by
  have hzero : (0.0 : Float).toBits = 0 := by decide +kernel
  have hminus : (-0.0 : Float).toBits = 0x8000000000000000 := by decide +kernel
  obtain ⟨hsign, hfields⟩ := parts_eq_finite.1 h
  have hlt := x.toBits.toNat_lt
  apply toBits_inj
  cases negative with
  | false =>
    rw [if_neg (by decide), hzero, ← UInt64.toNat_inj, UInt64.toNat_zero]
    have := of_decide_eq_false hsign.symm
    omega
  | true =>
    rw [if_pos rfl, hminus, ← UInt64.toNat_inj]
    have := of_decide_eq_true hsign.symm
    rw [show (0x8000000000000000 : UInt64).toNat = 2 ^ 63 from rfl]
    omega

theorem ofNumeral_zero {d : Decimal} (h : d.digits = 0) :
    ofNumeral (.finite d) = if d.negative then -0.0 else 0.0 := by
  have hzero : ofDecimal 0 d.exponent = 0.0 := rfl
  simp only [ofNumeral, h, hzero]

theorem isFinite_of_isPositiveProbability (h : Scalar.IsPositiveProbability x) : IsFinite x := by
  refine exists_parts_of_biased_ne fun hall => ?_
  have hcases := toBits_of_biased_eq hall
  rw [← ofBits_toBits x] at h
  simp only [List.mem_cons, List.not_mem_nil, or_false] at hcases
  rcases hcases with hbits | hbits | hbits
  · rw [hbits] at h
    exact absurd h (by decide +kernel)
  · rw [hbits] at h
    exact absurd h (by decide +kernel)
  · rw [hbits] at h
    exact absurd h (by decide +kernel)

/-- **Finite doubles are read back.** -/
theorem readable (tie : Tie) (hx : IsFinite x) : Readable tie x := by
  obtain ⟨negative, m, e, hparts⟩ := hx
  refine ⟨_, numeralBits_of_parts tie hparts, ?_⟩
  by_cases hm : m = 0
  · subst hm
    rw [if_pos rfl]
    have hlimit : (0 : ℚ) < limit := by
      rw [limit_eq]
      positivity
    refine ⟨.inr ⟨rfl, rfl⟩, ?_, fun d hnegative hmagnitude => ?_⟩
    · simpa [Decimal.magnitude] using hlimit
    · have hdigits : d.digits = 0 := by
        have hten : (10 : ℚ) ^ d.exponent ≠ 0 := by positivity
        simpa [Decimal.magnitude, hten] using hmagnitude
      rw [eq_zero_of_parts hparts, ← (show d.negative = negative from hnegative)]
      exact ofNumeral_zero hdigits
  · have hcanonical := canonical_of_parts hparts hm
    obtain ⟨c, e', hshortest, hcontains, hmod⟩ := shortest_spec tie hcanonical
    rw [if_neg hm, hshortest]
    refine ⟨.inl hmod, lt_limit_of_contains hcanonical hcontains, fun d hnegative hmagnitude => ?_⟩
    have hv : (around m e).Contains d.magnitude := by
      rw [hmagnitude]
      exact hcontains
    apply eq_of_unpack_eq
    rw [unpack_of_parts hparts hcanonical.pos, ← (show d.negative = negative from hnegative)]
    exact unpack_ofNumeral hcanonical hv

end

end Double

end SeismicHazard
