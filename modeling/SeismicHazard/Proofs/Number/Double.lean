import Mathlib
import SeismicHazard.Number.Double
import SeismicHazard.Proofs.Number.Decimal
import SeismicHazard.Proofs.Number.Shortest

/-!
# What is known of doubles

* `StoredNumber`: numbers that their bit patterns give back.
* `DistinctDecimals`: numbers whose decimals tell them apart.
* `Double.parts_eq_finite`: sign, significand and exponent as arithmetic on the bit pattern.
* `Double.exists_parts_of_isFinite`: a double whose difference with itself is a number is no infinity.
* `Double.numeralBits_inj`: bit patterns of finite doubles with the same numeral are the same.
* `Double.compareBits_eq_lt`: which of two patterns comes first in the total order.
* The instances for doubles, and that their total order is lawful.
-/

namespace SeismicHazard

/-- Numbers that are what their bit pattern stands for; a finite one is a number. -/
class StoredNumber (α : Type) [Scalar α] [BitPattern α] : Prop where
  ofBits_toBits : ∀ x : α, BitPattern.ofBits (BitPattern.toBits x) = x
  isNumber_of_isFinite : ∀ x : α, Scalar.isFinite x → Scalar.isNumber x

/-- Numbers of which each finite one has a decimal of its own. -/
class DistinctDecimals (α : Type) [Scalar α] [DecimalText α] : Prop where
  exists_decimal : ∀ (tie : Tie) (x : α), Scalar.isFinite x →
    ∃ d, DecimalText.numeral tie x = .finite d ∧ d.IsReduced
  numeral_inj : ∀ (tie : Tie) (x y : α), Scalar.isFinite x → Scalar.isFinite y →
    DecimalText.numeral tie x = DecimalText.numeral tie y → x = y

/-! ### Bit patterns as natural numbers -/

namespace Double

variable {bits bits' : UInt64} {negative : Bool} {m : ℕ} {e : ℤ}

theorem sign_eq (bits : UInt64) : (bits >>> 63 == 1) = decide (2 ^ 63 ≤ bits.toNat) := by
  have hlt := bits.toNat_lt
  have hshift : (bits >>> 63).toNat = bits.toNat / 2 ^ 63 := by
    rw [UInt64.toNat_shiftRight, Nat.shiftRight_eq_div_pow]
    rfl
  rw [Bool.eq_iff_iff, beq_iff_eq, ← UInt64.toNat_inj, decide_eq_true_iff, hshift, UInt64.toNat_one]
  omega

theorem biased_eq (bits : UInt64) :
    ((bits >>> 52) &&& 0x7ff).toNat = bits.toNat / 2 ^ 52 % 2 ^ 11 := by
  rw [UInt64.toNat_and, UInt64.toNat_shiftRight, ← Nat.and_two_pow_sub_one_eq_mod,
    ← Nat.shiftRight_eq_div_pow]
  rfl

theorem fraction_eq (bits : UInt64) : (bits &&& 0xfffffffffffff).toNat = bits.toNat % 2 ^ 52 := by
  rw [UInt64.toNat_and, ← Nat.and_two_pow_sub_one_eq_mod]
  rfl

/-- The parts of a finite number. -/
theorem parts_eq_finite : parts bits = .finite negative m e ↔
    negative = decide (2 ^ 63 ≤ bits.toNat) ∧
      (bits.toNat / 2 ^ 52 % 2 ^ 11 = 0 ∧ m = bits.toNat % 2 ^ 52 ∧ e = -1074 ∨
        bits.toNat / 2 ^ 52 % 2 ^ 11 ≠ 0 ∧ bits.toNat / 2 ^ 52 % 2 ^ 11 ≠ 0x7ff ∧
          m = bits.toNat % 2 ^ 52 + 2 ^ 52 ∧ e = (bits.toNat / 2 ^ 52 % 2 ^ 11 : ℕ) - 1075) := by
  unfold parts
  simp only [sign_eq, biased_eq, fraction_eq, beq_iff_eq]
  generalize bits.toNat / 2 ^ 52 % 2 ^ 11 = biased
  by_cases hall : biased = 0x7ff
  · rw [if_pos hall]
    constructor
    · intro h
      split at h
      · cases h
      · cases h
    · rintro ⟨-, ⟨h, -⟩ | ⟨-, h, -⟩⟩
      · omega
      · exact absurd hall h
  · rw [if_neg hall]
    by_cases hzero : biased = 0
    · rw [if_pos hzero, Parts.finite.injEq]
      constructor
      · rintro ⟨rfl, rfl, rfl⟩
        exact ⟨rfl, .inl ⟨hzero, rfl, rfl⟩⟩
      · rintro ⟨rfl, ⟨-, rfl, rfl⟩ | ⟨h, -⟩⟩
        · exact ⟨rfl, rfl, rfl⟩
        · exact absurd hzero h
    · rw [if_neg hzero, Parts.finite.injEq, Nat.one_shiftLeft]
      constructor
      · rintro ⟨rfl, rfl, rfl⟩
        exact ⟨rfl, .inr ⟨hzero, hall, rfl, rfl⟩⟩
      · rintro ⟨rfl, ⟨h, -⟩ | ⟨-, -, rfl, rfl⟩⟩
        · exact absurd h hzero
        · exact ⟨rfl, rfl, rfl⟩

/-- A pattern is the sum of its fields. -/
theorem toNat_eq_fields (bits : UInt64) : bits.toNat =
    bits.toNat / 2 ^ 63 * 2 ^ 63 + bits.toNat / 2 ^ 52 % 2 ^ 11 * 2 ^ 52 + bits.toNat % 2 ^ 52 := by
  omega

/-- A finite number is told by its parts. -/
theorem parts_inj (h : parts bits = .finite negative m e) (h' : parts bits' = .finite negative m e) :
    bits = bits' := by
  obtain ⟨hsign, hfields⟩ := parts_eq_finite.1 h
  obtain ⟨hsign', hfields'⟩ := parts_eq_finite.1 h'
  have hsame : 2 ^ 63 ≤ bits.toNat ↔ 2 ^ 63 ≤ bits'.toNat := by
    rw [← decide_eq_decide, ← hsign, ← hsign']
  have hlt := bits.toNat_lt
  have hlt' := bits'.toNat_lt
  apply UInt64.toNat_inj.1
  have hbiased : bits.toNat / 2 ^ 52 % 2 ^ 11 = bits'.toNat / 2 ^ 52 % 2 ^ 11 ∧
      bits.toNat % 2 ^ 52 = bits'.toNat % 2 ^ 52 := by
    rcases hfields with ⟨hzero, rfl, rfl⟩ | ⟨-, -, rfl, rfl⟩
    · rcases hfields' with ⟨hzero', hm, -⟩ | ⟨-, -, hm, -⟩
      · exact ⟨hzero.trans hzero'.symm, hm⟩
      · omega
    · rcases hfields' with ⟨-, hm, -⟩ | ⟨-, -, hm, he⟩
      · omega
      · exact ⟨by omega, by omega⟩
  rw [toNat_eq_fields bits, toNat_eq_fields bits', hbiased.1, hbiased.2]
  omega

/-- A finite number is a zero or has the significand and exponent of a double. -/
theorem canonical_of_parts (h : parts bits = .finite negative m e) (hm : m ≠ 0) :
    Shortest.Canonical m e := by
  obtain ⟨-, ⟨-, rfl, rfl⟩ | ⟨hzero, hall, rfl, rfl⟩⟩ := parts_eq_finite.1 h
  · constructor
    · exact Nat.pos_of_ne_zero hm
    · omega
    · omega
    · omega
    · omega
  · constructor
    · omega
    · omega
    · omega
    · omega
    · omega

/-! ### Numerals -/

/-- The numeral of a finite number: a zero has one digit, any other number its shortest digits. -/
theorem numeralBits_of_parts (tie : Tie) (h : parts bits = .finite negative m e) :
    numeralBits tie bits = .finite (if m = 0 then ⟨negative, 0, 0⟩ else
      ⟨negative, (shortest tie m e (Shortest.atBinade m e)).1,
        (shortest tie m e (Shortest.atBinade m e)).2⟩) := by
  unfold numeralBits
  rw [h]
  cases m with
  | zero => rfl
  | succ m => rfl

theorem isReduced_numeralBits (tie : Tie) (h : parts bits = .finite negative m e) :
    ∃ d, numeralBits tie bits = .finite d ∧ d.IsReduced := by
  refine ⟨_, numeralBits_of_parts tie h, ?_⟩
  split
  · exact .inr ⟨rfl, rfl⟩
  · next hm =>
    obtain ⟨c, e', hshortest, -, hmod⟩ := shortest_spec tie (canonical_of_parts h hm)
    rw [hshortest]
    exact .inl hmod

/-- Bit patterns of finite numbers with the same numeral are the same. -/
theorem numeralBits_inj {tie : Tie} {negative' : Bool} {m' : ℕ} {e' : ℤ}
    (h : parts bits = .finite negative m e) (h' : parts bits' = .finite negative' m' e')
    (heq : numeralBits tie bits = numeralBits tie bits') : bits = bits' := by
  rw [numeralBits_of_parts tie h, numeralBits_of_parts tie h', Numeral.finite.injEq] at heq
  -- the digits of a number that is not zero do not end in zero
  have hne : ∀ {bits negative m e}, parts bits = .finite negative m e → m ≠ 0 →
      (shortest tie m e (Shortest.atBinade m e)).1 ≠ 0 := by
    intro bits negative m e h hm hzero
    obtain ⟨c, e', hshortest, -, hmod⟩ := shortest_spec tie (canonical_of_parts h hm)
    rw [hshortest] at hzero
    simp only at hzero
    omega
  have hexp : ∀ {bits negative e}, parts bits = .finite negative 0 e → e = -1074 := by
    intro bits negative e h
    obtain ⟨-, ⟨-, -, he⟩ | ⟨-, -, hm, -⟩⟩ := parts_eq_finite.1 h
    · exact he
    · omega
  by_cases hm : m = 0
  · by_cases hm' : m' = 0
    · rw [if_pos hm, if_pos hm', Decimal.mk.injEq] at heq
      subst hm hm'
      rw [heq.1, hexp h] at h
      rw [hexp h'] at h'
      exact parts_inj h h'
    · rw [if_pos hm, if_neg hm', Decimal.mk.injEq] at heq
      exact absurd heq.2.1.symm (hne h' hm')
  · by_cases hm' : m' = 0
    · rw [if_neg hm, if_pos hm', Decimal.mk.injEq] at heq
      exact absurd heq.2.1 (hne h hm)
    · rw [if_neg hm, if_neg hm', Decimal.mk.injEq] at heq
      obtain ⟨rfl, hdigits, hexponent⟩ := heq
      obtain ⟨rfl, rfl⟩ := shortest_inj (canonical_of_parts h hm) (canonical_of_parts h' hm')
        (Prod.ext hdigits hexponent)
      exact parts_inj h h'

/-! ### The total order -/

theorem orderKey_inj (h : orderKey bits = orderKey bits') : bits = bits' := by
  have hlt := bits.toNat_lt
  have hlt' := bits'.toNat_lt
  apply UInt64.toNat_inj.1
  unfold orderKey at h
  simp only [sign_eq, decide_eq_true_iff, show Int64.maxValue.toInt = 2 ^ 63 - 1 from rfl] at h
  split at h
  · split at h
    · omega
    · omega
  · split at h
    · omega
    · omega

/-- Whether a pattern comes before another one: the patterns with the sign bit come first, and among
them a greater one before a smaller one. -/
def Precedes (bits bits' : UInt64) : Prop :=
  if 2 ^ 63 ≤ bits.toNat then bits'.toNat < 2 ^ 63 ∨ bits'.toNat < bits.toNat
  else bits'.toNat < 2 ^ 63 ∧ bits.toNat < bits'.toNat

theorem compareBits_eq_lt : compareBits bits bits' = .lt ↔ Precedes bits bits' := by
  have hlt := bits.toNat_lt
  have hlt' := bits'.toNat_lt
  unfold compareBits orderKey Precedes
  simp only [sign_eq, decide_eq_true_iff, show Int64.maxValue.toInt = 2 ^ 63 - 1 from rfl,
    compare_lt_iff_lt]
  split
  · split
    · omega
    · omega
  · split
    · omega
    · omega

/-! ### Patterns of the machine -/

section

open Float.Model Float.Model.UnpackedFloat

variable {b : BitVec Format.binary64.numBits} {x y : Float} {sign : Sign} {q : ℤ}

theorem toNat_unpackSign (b : BitVec Format.binary64.numBits) :
    (unpackSign b).toNat = b.toNat / 2 ^ 63 % 2 := by
  simp [unpackSign, BitVec.extractLsb_toNat, Nat.shiftRight_eq_div_pow]

theorem toNat_unpackExponent (b : BitVec Format.binary64.numBits) :
    (unpackExponent b).toNat = b.toNat / 2 ^ 52 % 2 ^ 11 := by
  simp [unpackExponent, BitVec.extractLsb_toNat, Nat.shiftRight_eq_div_pow]

theorem toNat_unpackMantissa (b : BitVec Format.binary64.numBits) :
    (unpackMantissa b).toNat = b.toNat % 2 ^ 52 := by
  simp [unpackMantissa, BitVec.extractLsb_toNat, Nat.shiftRight_eq_div_pow]

theorem toBitVec_ofBitVec (s : BitVec 1) : (Sign.ofBitVec s).toBitVec = s := by
  revert s
  decide

theorem toNat_packComponents (s : Sign) (exponent : BitVec 11) (mantissa : BitVec 52) :
    (packComponents Format.binary64 s exponent mantissa).toNat =
      (s.toBitVec.toNat * 2 ^ 11 + exponent.toNat) * 2 ^ 52 + mantissa.toNat := by
  rw [packComponents, BitVec.toNat_append, ← Nat.shiftLeft_add_eq_or_of_lt mantissa.isLt,
    BitVec.toNat_append, ← Nat.shiftLeft_add_eq_or_of_lt exponent.isLt, Nat.shiftLeft_eq,
    Nat.shiftLeft_eq]

/-- A pattern is put together from its fields. -/
theorem packComponents_unpack (b : BitVec Format.binary64.numBits) :
    packComponents Format.binary64 (Sign.ofBitVec (unpackSign b)) (unpackExponent b)
      (unpackMantissa b) = b := by
  have hb : b.toNat < 2 ^ 64 := b.isLt
  apply BitVec.eq_of_toNat_eq
  rw [toNat_packComponents, toBitVec_ofBitVec, toNat_unpackSign, toNat_unpackExponent,
    toNat_unpackMantissa]
  omega

theorem exponentBias_eq : Format.binary64.exponentBias = 1023 := rfl

/-- A normal number is packed with its exponent and without its leading bit. -/
theorem pack_normal (s : Sign) (exponent : BitVec 11) (mantissa : BitVec 52) {h}
    (hexponent : exponent.toNat + 1 < 2 ^ 11) :
    UnpackedFloat.pack Format.binary64 (.finite s (1#1 ++ mantissa).toNat
      ((exponent.toNat : ℤ) - (Format.binary64.exponentBias + 52 : ℕ)) h) =
      packComponents Format.binary64 s exponent mantissa := by
  have hlt : mantissa.toNat < 2 ^ 52 := mantissa.isLt
  have hvalue : (1#1 ++ mantissa).toNat = 2 ^ 52 + mantissa.toNat := by
    rw [BitVec.toNat_append, ← Nat.shiftLeft_add_eq_or_of_lt hlt]
    rfl
  have hlog : (2 ^ 52 + mantissa.toNat).log2 = 52 := by
    rw [Nat.log2_eq_iff (by omega)]
    omega
  have hbiased : ((exponent.toNat : ℤ) - (Format.binary64.exponentBias + 52 : ℕ) +
      Format.binary64.exponentBias + (52 : ℕ)).toNat = exponent.toNat := by
    rw [exponentBias_eq]
    omega
  have hmantissa : BitVec.ofNat 52 (2 ^ 52 + mantissa.toNat) = mantissa := by
    apply BitVec.eq_of_toNat_eq
    rw [BitVec.toNat_ofNat]
    omega
  have hbits : 52 + 1 = Format.binary64.mantissaBits := rfl
  unfold UnpackedFloat.pack
  simp only [hvalue, hlog, hbiased]
  rw [if_neg (by omega), if_pos hbits, hmantissa, BitVec.ofNat_toNat, BitVec.setWidth_eq]

/-- A number below all normal ones is packed with the exponent zero. -/
theorem pack_subnormal (s : Sign) (mantissa : BitVec 52) {h} :
    UnpackedFloat.pack Format.binary64 (.finite s mantissa.toNat
      ((0 : ℤ) - (Format.binary64.exponentBias + 52 : ℕ) + 1) h) =
      packComponents Format.binary64 s 0#11 mantissa := by
  have hlog : mantissa.toNat.log2 < 52 := (Nat.log2_lt h.ne').2 mantissa.isLt
  have hbiased : ((0 : ℤ) - (Format.binary64.exponentBias + 52 : ℕ) + 1 +
      Format.binary64.exponentBias + (52 : ℕ)).toNat = 1 := by
    rw [exponentBias_eq]
    omega
  have hbits : mantissa.toNat.log2 + 1 ≠ Format.binary64.mantissaBits := by
    rw [show Format.binary64.mantissaBits = 53 from rfl]
    omega
  unfold UnpackedFloat.pack
  simp only [hbiased]
  rw [if_neg (by omega), if_neg hbits, BitVec.ofNat_toNat, BitVec.setWidth_eq]

/-- What is unpacked from a pattern that stands for a number or an infinity is packed as that pattern. -/
theorem pack_unpack (h : Format.binary64.Valid b) :
    UnpackedFloat.pack Format.binary64 (UnpackedFloat.unpack Format.binary64 b) = b := by
  have hparts := packComponents_unpack b
  have hmantissa : (unpackMantissa b).toNat < 2 ^ 52 := (unpackMantissa b).isLt
  have hexponent : (unpackExponent b).toNat < 2 ^ 11 := (unpackExponent b).isLt
  unfold UnpackedFloat.unpack
  simp only
  by_cases hall : unpackExponent b = -1#_
  · rw [if_pos hall]
    by_cases hzero : unpackMantissa b = 0#_
    · rw [if_pos hzero]
      rw [hall, hzero] at hparts
      exact hparts
    · rw [if_neg hzero]
      exact (h.eq_packedNaN hall hzero).symm
  · rw [if_neg hall]
    have hlt : (unpackExponent b).toNat + 1 < 2 ^ 11 := by
      have : (unpackExponent b).toNat ≠ (-1#11 : BitVec 11).toNat := by
        intro heq
        exact hall (BitVec.eq_of_toNat_eq heq)
      simp only [show (-1#11 : BitVec 11).toNat = 2047 from rfl] at this
      omega
    by_cases hsub : unpackExponent b = 0#_
    · rw [if_pos hsub]
      by_cases hzero : unpackMantissa b = 0#_
      · rw [dif_pos hzero]
        rw [hsub, hzero] at hparts
        exact hparts
      · rw [dif_neg hzero]
        rw [hsub] at hparts ⊢
        exact (pack_subnormal _ _).trans hparts
    · rw [if_neg hsub]
      exact (pack_normal _ _ _ hlt).trans hparts

def signOf (negative : Bool) : Sign := if negative then .negative else .positive

theorem ofBitVec_unpackSign (bits : UInt64) :
    Sign.ofBitVec (@unpackSign Format.binary64 bits.toBitVec) = signOf (decide (2 ^ 63 ≤ bits.toNat)) := by
  have hlt := bits.toNat_lt
  have hvalue := toNat_unpackSign bits.toBitVec
  rw [UInt64.toNat_toBitVec] at hvalue
  unfold Sign.ofBitVec signOf
  by_cases hbit : 2 ^ 63 ≤ bits.toNat
  · rw [if_neg, if_pos (decide_eq_true hbit)]
    intro hzero
    rw [hzero] at hvalue
    simp only [BitVec.toNat_ofNat] at hvalue
    omega
  · rw [if_pos, if_neg (by simpa using hbit)]
    apply BitVec.eq_of_toNat_eq
    rw [hvalue]
    simp only [BitVec.toNat_ofNat]
    omega

theorem unpackSign_packComponents (s : Sign) (exponent : BitVec 11) (mantissa : BitVec 52) :
    Sign.ofBitVec (unpackSign (packComponents Format.binary64 s exponent mantissa)) = s := by
  have hexponent : exponent.toNat < 2 ^ 11 := exponent.isLt
  have hmantissa : mantissa.toNat < 2 ^ 52 := mantissa.isLt
  have hlt : s.toBitVec.toNat < 2 := s.toBitVec.isLt
  have hsign : unpackSign (packComponents Format.binary64 s exponent mantissa) = s.toBitVec := by
    apply BitVec.eq_of_toNat_eq
    rw [toNat_unpackSign, toNat_packComponents]
    omega
  rw [hsign]
  cases s with
  | negative => rfl
  | positive => rfl

/-- What is unpacked from the fields of a normal number. -/
theorem unpack_normal (s : Sign) {exponent : BitVec 11} (mantissa : BitVec 52)
    (hne : exponent ≠ 0#11) (hfinite : exponent ≠ -1#11) :
    UnpackedFloat.unpack Format.binary64 (packComponents Format.binary64 s exponent mantissa) =
      .finite s (2 ^ 52 + mantissa.toNat) (exponent.toNat - 1075) (by omega) := by
  unfold UnpackedFloat.unpack
  simp only [unpackExponent_packComponents, unpackMantissa_packComponents,
    unpackSign_packComponents]
  rw [if_neg hfinite, if_neg hne, UnpackedFloat.finite.injEq]
  refine ⟨rfl, ?_, ?_⟩
  · rw [BitVec.toNat_append, ← Nat.shiftLeft_add_eq_or_of_lt mantissa.isLt]
    rfl
  · rw [exponentBias_eq]
    norm_num

/-- What is unpacked from the fields of a number below all normal ones. -/
theorem unpack_subnormal (s : Sign) {mantissa : BitVec 52} (hpos : 0 < mantissa.toNat) :
    UnpackedFloat.unpack Format.binary64 (packComponents Format.binary64 s 0#11 mantissa) =
      .finite s mantissa.toNat (-1074) hpos := by
  have hne : mantissa ≠ 0#52 := by
    rintro rfl
    exact hpos.ne rfl
  unfold UnpackedFloat.unpack
  simp only [unpackExponent_packComponents, unpackMantissa_packComponents,
    unpackSign_packComponents]
  rw [if_neg (by decide), if_pos trivial, dif_neg hne, UnpackedFloat.finite.injEq]
  exact ⟨rfl, rfl, rfl⟩

theorem ne_ofNat_of_toNat_ne {exponent : BitVec 11} {k : ℕ} (h : exponent.toNat ≠ k)
    (hk : k < 2 ^ 11) : exponent ≠ BitVec.ofNat 11 k := by
  rintro rfl
  rw [BitVec.toNat_ofNat, Nat.mod_eq_of_lt hk] at h
  exact h rfl

/-- What is unpacked from a finite number other than zero. -/
theorem unpack_of_parts (h : parts x.toBits = .finite negative m e) (hm : 0 < m) :
    x.toModel.unpack = .finite (signOf negative) m e hm := by
  obtain ⟨rfl, hfields⟩ := parts_eq_finite.1 h
  obtain ⟨b, hb⟩ : ∃ b : BitVec Format.binary64.numBits, b = x.toBits.toBitVec := ⟨_, rfl⟩
  have hexponent := toNat_unpackExponent b
  have hmantissa := toNat_unpackMantissa b
  have hsign := ofBitVec_unpackSign x.toBits
  have hbits : b.toNat = x.toBits.toNat := by rw [hb, UInt64.toNat_toBitVec]
  rw [← hb] at hsign
  rw [hbits] at hexponent hmantissa
  change UnpackedFloat.unpack Format.binary64 x.toBits.toBitVec = _
  rw [← hb, ← packComponents_unpack b, hsign]
  rcases hfields with ⟨hzero, rfl, rfl⟩ | ⟨hne, hfinite, rfl, rfl⟩
  · have hexponent' : unpackExponent b = 0#11 := by
      apply BitVec.eq_of_toNat_eq
      rw [hexponent, hzero]
      rfl
    rw [hexponent', unpack_subnormal _ (hmantissa ▸ hm), UnpackedFloat.finite.injEq]
    exact ⟨rfl, hmantissa, rfl⟩
  · rw [unpack_normal _ _ (ne_ofNat_of_toNat_ne (hexponent ▸ hne) (by norm_num))
      (ne_ofNat_of_toNat_ne (hexponent ▸ hfinite) (by norm_num)), UnpackedFloat.finite.injEq]
    exact ⟨rfl, by rw [hmantissa, Nat.add_comm], by rw [hexponent]⟩

/-- What is packed is unpacked. -/
theorem unpack_pack (hm : Shortest.Canonical m q) : (Float.Model.pack (.finite sign m q hm.pos)).unpack =
    .finite sign m q hm.pos := by
  have hge := hm.exponent_ge
  have hle := hm.exponent_le
  have hlt := hm.lt
  have hpos := hm.pos
  have hlog := hm.log2_le
  obtain ⟨k, hk⟩ : ∃ k : ℕ, k = (q + Format.binary64.exponentBias + (52 : ℕ)).toNat := ⟨_, rfl⟩
  have hk' : (k : ℤ) = q + 1075 := by
    rw [hk, exponentBias_eq]
    omega
  have hmod : (BitVec.ofNat 52 m).toNat = m % 2 ^ 52 := BitVec.toNat_ofNat _ _
  change UnpackedFloat.unpack Format.binary64 (UnpackedFloat.pack Format.binary64 _) = _
  unfold UnpackedFloat.pack
  simp only [← hk]
  rw [if_neg (by omega)]
  by_cases hnormal : m.log2 = 52
  · have hm' : 2 ^ 52 ≤ m := hnormal ▸ Nat.log2_self_le hm.pos.ne'
    have hexponent : (BitVec.ofNat 11 k).toNat = k := by
      rw [BitVec.toNat_ofNat]
      omega
    rw [if_pos (show m.log2 + 1 = Format.binary64.mantissaBits by rw [hnormal]; rfl),
      unpack_normal _ _ (ne_ofNat_of_toNat_ne (by omega) (by norm_num))
        (@ne_ofNat_of_toNat_ne _ 2047 (by omega) (by norm_num)), UnpackedFloat.finite.injEq]
    exact ⟨rfl, by omega, by omega⟩
  · have hm' : m < 2 ^ 52 := (Nat.log2_lt hm.pos.ne').1 (by omega)
    obtain rfl : q = -1074 := by
      by_contra hne
      have := hm.ge_of_lt (by omega)
      omega
    rw [if_neg (show ¬ m.log2 + 1 = Format.binary64.mantissaBits by
      rw [show Format.binary64.mantissaBits = 53 from rfl]; omega),
      unpack_subnormal _ (by omega), UnpackedFloat.finite.injEq]
    exact ⟨rfl, by omega, rfl⟩

/-! ### Doubles of the machine -/

theorem toBits_inj (h : x.toBits = y.toBits) : x = y := by
  obtain ⟨⟨bits, hx⟩⟩ := x
  obtain ⟨⟨bits', hy⟩⟩ := y
  obtain rfl : bits = bits' := h
  rfl

theorem ofBits_toBits (x : Float) : Float.ofBits x.toBits = x := by
  apply toBits_inj
  exact congrArg UInt64.ofBitVec (pack_unpack x.toModel.valid)

/-- Of the patterns with the greatest exponent only two infinities and one that is no number stand for
doubles. -/
theorem toBits_of_biased_eq (h : x.toBits.toNat / 2 ^ 52 % 2 ^ 11 = 0x7ff) :
    x.toBits ∈ [0x7ff0000000000000, 0xfff0000000000000, 0x7ff8000000000000] := by
  have hlt := x.toBits.toNat_lt
  have hfields := toNat_eq_fields x.toBits
  by_cases hzero : x.toBits.toNat % 2 ^ 52 = 0
  · rw [List.mem_cons, List.mem_cons, ← UInt64.toNat_inj, ← UInt64.toNat_inj]
    by_cases hsign : x.toBits.toNat < 2 ^ 63
    · refine .inl ?_
      rw [show (0x7ff0000000000000 : UInt64).toNat = 0x7ff * 2 ^ 52 from rfl]
      omega
    · refine .inr (.inl ?_)
      rw [show (0xfff0000000000000 : UInt64).toNat = 2 ^ 63 + 0x7ff * 2 ^ 52 from rfl]
      omega
  · have hall : @unpackExponent Format.binary64 x.toBits.toBitVec = -1#11 := by
      apply BitVec.eq_of_toNat_eq
      rw [toNat_unpackExponent]
      exact h
    have hne : @unpackMantissa Format.binary64 x.toBits.toBitVec ≠ 0#52 := by
      intro heq
      apply hzero
      have := toNat_unpackMantissa x.toBits.toBitVec
      rw [heq] at this
      exact this.symm
    have hnan := x.toModel.valid.eq_packedNaN hall hne
    have hbits : x.toBits = UInt64.ofBitVec (packedNaN Format.binary64) := congrArg UInt64.ofBitVec hnan
    rw [hbits]
    decide

theorem isFinite_eq_false_of_biased (h : x.toBits.toNat / 2 ^ 52 % 2 ^ 11 = 0x7ff) :
    Scalar.isFinite x = false := by
  have hcases := toBits_of_biased_eq h
  rw [← ofBits_toBits x]
  simp only [List.mem_cons, List.not_mem_nil, or_false] at hcases
  rcases hcases with hbits | hbits | hbits
  · rw [hbits]
    decide +kernel
  · rw [hbits]
    decide +kernel
  · rw [hbits]
    decide +kernel

theorem exists_parts_of_biased_ne (h : x.toBits.toNat / 2 ^ 52 % 2 ^ 11 ≠ 0x7ff) :
    ∃ negative m e, parts x.toBits = .finite negative m e := by
  by_cases hzero : x.toBits.toNat / 2 ^ 52 % 2 ^ 11 = 0
  · exact ⟨_, _, _, parts_eq_finite.2 ⟨rfl, .inl ⟨hzero, rfl, rfl⟩⟩⟩
  · exact ⟨_, _, _, parts_eq_finite.2 ⟨rfl, .inr ⟨hzero, h, rfl, rfl⟩⟩⟩

theorem exists_parts_of_isFinite (h : Scalar.isFinite x) :
    ∃ negative m e, parts x.toBits = .finite negative m e := by
  refine exists_parts_of_biased_ne fun hall => ?_
  rw [isFinite_eq_false_of_biased hall] at h
  cases h

theorem isNumber_of_isFinite (h : Scalar.isFinite x) : Scalar.isNumber x := by
  -- what is no number has a difference with itself that is none either
  have hnan : x.toModel.unpack = .notANumber → Scalar.isFinite x = false := by
    intro hx
    have hsub : Float.sub x x = .ofModel (.pack .notANumber) := by
      unfold Float.sub
      change Float.ofModel (.pack (UnpackedFloat.sub _ x.toModel.unpack x.toModel.unpack)) = _
      rw [hx]
      rfl
    change Scalar.isNumber (Float.sub x x) = false
    rw [hsub]
    decide +kernel
  change (x.toModel.unpack.compare x.toModel.unpack == some .eq) = true
  cases hx : x.toModel.unpack with
  | notANumber =>
    rw [hnan hx] at h
    cases h
  | infinity s => cases s with
    | negative => rfl
    | positive => rfl
  | zero s => rfl
  | finite s m e hm => cases s with
    | negative =>
      simp [UnpackedFloat.compare, Std.compare_self]
    | positive =>
      simp [UnpackedFloat.compare, Std.compare_self]

end

end Double

instance : StoredNumber Float where
  ofBits_toBits := Double.ofBits_toBits
  isNumber_of_isFinite _ := Double.isNumber_of_isFinite

instance : DistinctDecimals Float where
  exists_decimal tie x hx := by
    obtain ⟨negative, m, e, hparts⟩ := Double.exists_parts_of_isFinite hx
    exact Double.isReduced_numeralBits tie hparts
  numeral_inj tie x y hx hy heq := by
    obtain ⟨negative, m, e, hparts⟩ := Double.exists_parts_of_isFinite hx
    obtain ⟨negative', m', e', hparts'⟩ := Double.exists_parts_of_isFinite hy
    exact Double.toBits_inj (Double.numeralBits_inj hparts hparts' heq)

instance : Std.TransCmp (TotalOrder.cmp : UInt64 → UInt64 → Ordering) :=
  inferInstanceAs (Std.TransCmp (compareOn Double.orderKey))

instance : Std.LawfulEqCmp (TotalOrder.cmp : UInt64 → UInt64 → Ordering) where
  compare_self := Std.ReflCmp.compare_self
  eq_of_compare h := Double.orderKey_inj (compare_eq_iff_eq.1 h)

instance : Std.TransCmp (TotalOrder.cmp : Float → Float → Ordering) :=
  inferInstanceAs (Std.TransCmp (compareOn fun x : Float => Double.orderKey x.toBits))

instance : Std.LawfulEqCmp (TotalOrder.cmp : Float → Float → Ordering) where
  compare_self := Std.ReflCmp.compare_self
  eq_of_compare h := Double.toBits_inj (Double.orderKey_inj (compare_eq_iff_eq.1 h))

end SeismicHazard
