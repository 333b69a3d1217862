import Mathlib.Algebra.Group.Nat.Defs
import Mathlib.Data.List.Basic
import SeismicHazard.Number.Decimal

/-!
# Decimals are told apart by their texts

Whatever the layout, the text of a finite decimal can be read back: an `e` stands in it exactly if the
point is not in its place, everything in front of the first `e` or point is digits, and a minus in front
of a digit is the sign of the number. So decimals without trailing zeros have different texts.

* `Decimal.IsReduced`: the last digit is not zero, unless there is only one.
* `Decimal.split_inj`: reduced decimals with the same digits around the point are equally large.
* `Layout.write_finite_inj`: reduced decimals with the same text are the same.
* `Layout.mem_write`: the characters that a text is made of.
-/

namespace SeismicHazard

/-- The parts of a list around the first occurrence of a value. -/
theorem eq_and_eq_of_append_cons_eq {β : Type} {x : β} {as as' bs bs' : List β} (h : x ∉ as)
    (h' : x ∉ as') (heq : as ++ x :: bs = as' ++ x :: bs') : as = as' ∧ bs = bs' := by
  induction as generalizing as' with
  | nil =>
    cases as' with
    | nil => simpa using heq
    | cons a' as' =>
      simp only [List.nil_append, List.cons_append, List.cons.injEq] at heq
      exact absurd (heq.1 ▸ List.mem_cons_self) h'
  | cons a as ih =>
    cases as' with
    | nil =>
      simp only [List.nil_append, List.cons_append, List.cons.injEq] at heq
      exact absurd (heq.1 ▸ List.mem_cons_self) h
    | cons a' as' =>
      simp only [List.cons_append, List.cons.injEq] at heq
      obtain ⟨rfl, heq⟩ := heq
      rw [List.mem_cons, not_or] at h h'
      obtain ⟨rfl, hbs⟩ := ih h.2 h'.2 heq
      exact ⟨rfl, hbs⟩

theorem notMem_of_isDigit {cs : List Char} (h : ∀ c ∈ cs, c.isDigit) {x : Char}
    (hx : x.isDigit = false) : x ∉ cs := by
  intro hmem
  have := h x hmem
  rw [hx] at this
  exact absurd this (by simp)

theorem isDigit_of_mem_replicate {n : Nat} {c : Char} (h : c ∈ List.replicate n '0') :
    c.isDigit := by
  rw [List.eq_of_mem_replicate h]
  rfl

/-- A natural number is told by its digits. -/
theorem toDigits_inj {m n : Nat} (h : Nat.toDigits 10 m = Nat.toDigits 10 n) : m = n := by
  have := congrArg (Nat.ofDigitChars 10 · 0) h
  simpa only [Nat.ofDigitChars_ten_toDigits] using this

namespace Decimal

variable {d d' : Decimal}

/-- The last digit is not zero, unless it is the only one of a plain zero. -/
def IsReduced (d : Decimal) : Prop := d.digits % 10 ≠ 0 ∨ d.digits = 0 ∧ d.exponent = 0

theorem isDigit_of_mem_digitChars {c : Char} (h : c ∈ d.digitChars) : c.isDigit :=
  Nat.isDigit_of_mem_toDigits (by omega) (by omega) h

theorem digitChars_ne_nil (d : Decimal) : d.digitChars ≠ [] := Nat.toDigits_ne_nil

theorem isDigit_of_mem_split {c : Char} (h : c ∈ d.split.1 ++ d.split.2) : c.isDigit := by
  unfold split at h
  split at h
  · rw [List.append_nil] at h
    rcases List.mem_append.1 h with h | h
    · exact isDigit_of_mem_digitChars h
    · exact isDigit_of_mem_replicate h
  · simp only at h
    split at h
    · rw [List.take_append_drop] at h
      exact isDigit_of_mem_digitChars h
    · simp only [List.singleton_append, List.mem_cons, List.mem_append] at h
      rcases h with rfl | h | h
      · rfl
      · exact isDigit_of_mem_replicate h
      · exact isDigit_of_mem_digitChars h

theorem split_fst_ne_nil (d : Decimal) : d.split.1 ≠ [] := by
  have hne := d.digitChars_ne_nil
  unfold split
  split
  · simp [hne]
  · simp only
    split
    · next hlt =>
      intro h
      have := congrArg List.length h
      simp only [List.length_take, List.length_nil] at this
      omega
    · exact List.cons_ne_nil _ _

theorem length_split_snd (d : Decimal) : d.split.2.length = (-d.exponent).toNat := by
  unfold split
  split
  · simp
    omega
  · simp only
    split
    · rw [List.length_drop]
      omega
    · rw [List.length_append, List.length_replicate]
      omega

theorem ofDigitChars_split (d : Decimal) :
    Nat.ofDigitChars 10 (d.split.1 ++ d.split.2) 0 = d.digits * 10 ^ d.exponent.toNat := by
  have hdigits : Nat.ofDigitChars 10 d.digitChars 0 = d.digits := Nat.ofDigitChars_ten_toDigits
  unfold split
  split
  · rw [List.append_nil, Nat.ofDigitChars_append, hdigits, Nat.ofDigitChars_replicate_zero,
      Nat.mul_comm]
  · next hneg =>
    have hexp : d.exponent.toNat = 0 := by omega
    rw [hexp, Nat.pow_zero, Nat.mul_one]
    simp only
    split
    · rw [List.take_append_drop, hdigits]
    · rw [← List.append_assoc, Nat.ofDigitChars_append,
        show ['0'] ++ List.replicate ((-d.exponent).toNat - d.digitChars.length) '0' =
          List.replicate ((-d.exponent).toNat - d.digitChars.length + 1) '0' from rfl,
        Nat.ofDigitChars_replicate_zero, Nat.mul_zero, hdigits]

/-- Reduced decimals with the same value and the same number of places are the same. -/
theorem IsReduced.eq_of_value_eq (h : d.IsReduced) (h' : d'.IsReduced)
    (hplaces : (-d.exponent).toNat = (-d'.exponent).toNat)
    (hvalue : d.digits * 10 ^ d.exponent.toNat = d'.digits * 10 ^ d'.exponent.toNat) :
    d.digits = d'.digits ∧ d.exponent = d'.exponent := by
  -- a power of ten more on one side would make the digits on the other side end in zero
  have hle : ∀ {a b : Decimal}, a.IsReduced → b.IsReduced →
      a.digits * 10 ^ a.exponent.toNat = b.digits * 10 ^ b.exponent.toNat →
      ¬ a.exponent.toNat < b.exponent.toNat := by
    intro a b ha hb hvalue hlt
    obtain ⟨k, hk⟩ : ∃ k, b.exponent.toNat = a.exponent.toNat + (k + 1) :=
      ⟨b.exponent.toNat - a.exponent.toNat - 1, by omega⟩
    have hdigits : a.digits = b.digits * 10 ^ k * 10 := by
      apply Nat.eq_of_mul_eq_mul_right (Nat.pow_pos (n := a.exponent.toNat) (by omega : 0 < 10))
      rw [hvalue, hk, Nat.pow_add, Nat.pow_succ]
      ac_rfl
    rcases ha with ha | ⟨ha, -⟩
    · omega
    · rw [ha] at hvalue
      rcases hb with hb | ⟨-, hb⟩
      · rw [Nat.zero_mul] at hvalue
        rcases Nat.mul_eq_zero.1 hvalue.symm with hzero | hpow
        · omega
        · exact absurd hpow (by simp)
      · omega
  have hexp : d.exponent.toNat = d'.exponent.toNat := by
    have := hle h h' hvalue
    have := hle h' h hvalue.symm
    omega
  refine ⟨?_, by omega⟩
  rw [hexp] at hvalue
  exact Nat.eq_of_mul_eq_mul_right (Nat.pow_pos (by omega)) hvalue

theorem split_inj (h : d.IsReduced) (h' : d'.IsReduced) (hsplit : d.split = d'.split) :
    d.digits = d'.digits ∧ d.exponent = d'.exponent := by
  apply h.eq_of_value_eq h'
  · rw [← length_split_snd, ← length_split_snd, hsplit]
  · rw [← ofDigitChars_split, ← ofDigitChars_split, hsplit]

/-- The fraction of a reduced decimal is not a lone zero. -/
theorem IsReduced.split_snd_ne_zero (h : d.IsReduced) : d.split.2 ≠ ['0'] := by
  intro hzero
  have hlength := d.length_split_snd
  have hvalue := d.ofDigitChars_split
  rw [hzero] at hlength hvalue
  simp only [List.length_singleton] at hlength
  have hexp : d.exponent.toNat = 0 := by omega
  rw [hexp, Nat.ofDigitChars_append] at hvalue
  simp [Nat.ofDigitChars] at hvalue
  rcases h with h | ⟨-, h⟩
  · omega
  · omega

end Decimal

namespace Layout

variable {l : Layout} {d d' : Decimal}

/-! ### Exponents -/

/-- The sign and the digits of an exponent. -/
theorem exists_exponentChars (l : Layout) (e : Int) : ∃ cs : List Char, (∀ c ∈ cs, c.isDigit) ∧
    Nat.ofDigitChars 10 cs 0 = e.natAbs ∧
    l.exponentChars e = (if e < 0 then ['-'] else if l.plusSign then ['+'] else []) ++ cs := by
  refine ⟨List.replicate (l.exponentWidth - (Nat.toDigits 10 e.natAbs).length) '0' ++
    Nat.toDigits 10 e.natAbs, ?_, ?_, ?_⟩
  · intro c hc
    rcases List.mem_append.1 hc with hc | hc
    · exact isDigit_of_mem_replicate hc
    · exact Nat.isDigit_of_mem_toDigits (by omega) (by omega) hc
  · rw [Nat.ofDigitChars_append, Nat.ofDigitChars_replicate_zero, Nat.mul_zero,
      Nat.ofDigitChars_ten_toDigits]
  · unfold exponentChars
    simp only
    by_cases he : e < 0
    · simp [he]
    · by_cases hplus : l.plusSign
      · simp [he, hplus]
      · simp [he, hplus]

theorem exponentChars_inj {e e' : Int} (h : l.exponentChars e = l.exponentChars e') : e = e' := by
  obtain ⟨cs, hdigit, hvalue, hcs⟩ := l.exists_exponentChars e
  obtain ⟨cs', hdigit', hvalue', hcs'⟩ := l.exists_exponentChars e'
  have hminus : '-' ∉ cs := notMem_of_isDigit hdigit rfl
  have hminus' : '-' ∉ cs' := notMem_of_isDigit hdigit' rfl
  rw [hcs, hcs'] at h
  by_cases he : e < 0
  · by_cases he' : e' < 0
    · rw [if_pos he, if_pos he'] at h
      rw [List.append_cancel_left h] at hvalue
      omega
    · rw [if_pos he, if_neg he'] at h
      have hmem : '-' ∈ (if l.plusSign then ['+'] else []) ++ cs' := by
        rw [← h]
        simp
      split at hmem
      · simp [hminus'] at hmem
      · simp [hminus'] at hmem
  · by_cases he' : e' < 0
    · rw [if_neg he, if_pos he'] at h
      have hmem : '-' ∈ (if l.plusSign then ['+'] else []) ++ cs := by
        rw [h]
        simp
      split at hmem
      · simp [hminus] at hmem
      · simp [hminus] at hmem
    · rw [if_neg he, if_neg he'] at h
      rw [List.append_cancel_left h] at hvalue
      omega

/-! ### Magnitudes -/

/-- What stands behind the whole part. -/
def afterWhole (l : Layout) (fraction : List Char) : List Char :=
  if fraction = [] then (if l.pointZero then ['.', '0'] else []) else '.' :: fraction

theorem magnitudeChars_of_isPositional (h : l.isPositional d) :
    l.magnitudeChars d = d.split.1 ++ l.afterWhole d.split.2 := by
  unfold magnitudeChars afterWhole
  rw [if_pos h]
  rcases d.split with ⟨whole, fraction⟩
  cases fraction with
  | nil =>
    by_cases hpoint : l.pointZero
    · simp [hpoint]
    · simp [hpoint]
  | cons c fraction => simp

/-- The digits with a point behind the first of several, and the power of ten. -/
theorem exists_magnitudeChars (h : ¬ l.isPositional d) : ∃ cs : List Char,
    cs.filter (· != '.') = d.digitChars ∧ l.magnitudeChars d = cs ++ 'e' :: l.exponentChars d.leading := by
  have hdigit : ∀ c ∈ d.digitChars, (c != '.') = true := by
    intro c hc
    have := Decimal.isDigit_of_mem_digitChars hc
    rw [bne_iff_ne]
    rintro rfl
    exact absurd this (by decide)
  unfold magnitudeChars
  rw [if_neg h]
  have hne := d.digitChars_ne_nil
  generalize d.digitChars = ds at *
  match ds with
  | [] => exact absurd rfl hne
  | [c] => exact ⟨[c], List.filter_eq_self.2 hdigit, rfl⟩
  | c :: c' :: rest =>
    refine ⟨c :: '.' :: c' :: rest, ?_, by simp⟩
    have hrest := List.filter_eq_self.2 fun x hx => hdigit x (List.mem_cons_of_mem _ hx)
    rw [List.filter_cons, if_pos (hdigit c List.mem_cons_self), List.filter_cons_of_neg (by decide),
      hrest]

theorem e_notMem_of_filter {cs : List Char} (h : cs.filter (· != '.') = d.digitChars) : 'e' ∉ cs := by
  intro hmem
  have : 'e' ∈ d.digitChars := by
    rw [← h]
    exact List.mem_filter.2 ⟨hmem, rfl⟩
  exact absurd (Decimal.isDigit_of_mem_digitChars this) (by decide)

theorem mem_afterWhole {fraction : List Char} {c : Char} (h : c ∈ l.afterWhole fraction) :
    c = '.' ∨ c = '0' ∨ c ∈ fraction := by
  unfold afterWhole at h
  split at h
  · split at h
    · simp only [List.mem_cons, List.not_mem_nil, or_false] at h
      rcases h with h | h
      · exact .inl h
      · exact .inr (.inl h)
    · exact absurd h List.not_mem_nil
  · rcases List.mem_cons.1 h with h | h
    · exact .inl h
    · exact .inr (.inr h)

theorem mem_magnitudeChars_of_isPositional (h : l.isPositional d) {c : Char}
    (hc : c ∈ l.magnitudeChars d) : c.isDigit ∨ c = '.' := by
  rw [magnitudeChars_of_isPositional h, List.mem_append] at hc
  rcases hc with hc | hc
  · exact .inl (Decimal.isDigit_of_mem_split (List.mem_append_left _ hc))
  · rcases mem_afterWhole hc with rfl | rfl | hc
    · exact .inr rfl
    · exact .inl rfl
    · exact .inl (Decimal.isDigit_of_mem_split (List.mem_append_right _ hc))

theorem isPositional_iff : l.isPositional d ↔ 'e' ∉ l.magnitudeChars d := by
  constructor
  · intro h hmem
    rcases mem_magnitudeChars_of_isPositional h hmem with hc | hc
    · exact absurd hc (by decide)
    · exact absurd hc (by decide)
  · intro h
    by_contra hnot
    obtain ⟨cs, -, hcs⟩ := exists_magnitudeChars hnot
    rw [hcs] at h
    exact h (by simp)

theorem exists_digit_magnitudeChars (l : Layout) (d : Decimal) :
    ∃ c rest, l.magnitudeChars d = c :: rest ∧ c.isDigit := by
  by_cases h : l.isPositional d
  · obtain ⟨c, whole, hwhole⟩ := List.exists_cons_of_ne_nil d.split_fst_ne_nil
    refine ⟨c, whole ++ l.afterWhole d.split.2, ?_, ?_⟩
    · rw [magnitudeChars_of_isPositional h, hwhole, List.cons_append]
    · apply Decimal.isDigit_of_mem_split (d := d)
      simp [hwhole]
  · obtain ⟨c, rest, hdigits⟩ := List.exists_cons_of_ne_nil d.digitChars_ne_nil
    have hc : c.isDigit := Decimal.isDigit_of_mem_digitChars (hdigits ▸ List.mem_cons_self)
    unfold magnitudeChars
    rw [if_neg h, hdigits]
    cases rest with
    | nil => exact ⟨c, _, rfl, hc⟩
    | cons c' rest => exact ⟨c, _, rfl, hc⟩

/-- What stands behind the whole part tells the fraction, which is never a lone zero. -/
theorem afterWhole_inj {whole whole' fraction fraction' : List Char} (h : '.' ∉ whole)
    (h' : '.' ∉ whole') (hzero : fraction ≠ ['0']) (hzero' : fraction' ≠ ['0'])
    (heq : whole ++ l.afterWhole fraction = whole' ++ l.afterWhole fraction') :
    whole = whole' ∧ fraction = fraction' := by
  unfold afterWhole at heq
  by_cases hnil : fraction = []
  · by_cases hnil' : fraction' = []
    · rw [if_pos hnil, if_pos hnil'] at heq
      exact ⟨List.append_cancel_right heq, hnil.trans hnil'.symm⟩
    · rw [if_pos hnil, if_neg hnil'] at heq
      split at heq
      · exact absurd (eq_and_eq_of_append_cons_eq h h' heq).2.symm hzero'
      · rw [List.append_nil] at heq
        exact absurd (heq ▸ List.mem_append_right _ List.mem_cons_self) h
  · by_cases hnil' : fraction' = []
    · rw [if_neg hnil, if_pos hnil'] at heq
      split at heq
      · exact absurd (eq_and_eq_of_append_cons_eq h h' heq).2 hzero
      · rw [List.append_nil] at heq
        exact absurd (heq ▸ List.mem_append_right _ List.mem_cons_self) h'
    · rw [if_neg hnil, if_neg hnil'] at heq
      exact eq_and_eq_of_append_cons_eq h h' heq

theorem magnitudeChars_inj (h : d.IsReduced) (h' : d'.IsReduced)
    (heq : l.magnitudeChars d = l.magnitudeChars d') :
    d.digits = d'.digits ∧ d.exponent = d'.exponent := by
  by_cases hpos : l.isPositional d
  · have hpos' : l.isPositional d' := by
      rw [isPositional_iff, ← heq, ← isPositional_iff]
      exact hpos
    have hpoint : ∀ a : Decimal, '.' ∉ a.split.1 := fun a => notMem_of_isDigit
      (fun c hc => Decimal.isDigit_of_mem_split (List.mem_append_left _ hc)) rfl
    rw [magnitudeChars_of_isPositional hpos, magnitudeChars_of_isPositional hpos'] at heq
    obtain ⟨hwhole, hfraction⟩ := afterWhole_inj (hpoint d) (hpoint d') h.split_snd_ne_zero
      h'.split_snd_ne_zero heq
    exact Decimal.split_inj h h' (Prod.ext hwhole hfraction)
  · have hpos' : ¬ l.isPositional d' := by
      rw [isPositional_iff, ← heq, ← isPositional_iff]
      exact hpos
    obtain ⟨cs, hdigits, hcs⟩ := exists_magnitudeChars hpos
    obtain ⟨cs', hdigits', hcs'⟩ := exists_magnitudeChars hpos'
    rw [hcs, hcs'] at heq
    obtain ⟨rfl, hexponent⟩ :=
      eq_and_eq_of_append_cons_eq (e_notMem_of_filter hdigits) (e_notMem_of_filter hdigits') heq
    have hchars : d.digitChars = d'.digitChars := hdigits.symm.trans hdigits'
    have hleading := exponentChars_inj hexponent
    unfold Decimal.leading at hleading
    rw [hchars] at hleading
    exact ⟨toDigits_inj hchars, by omega⟩

/-! ### Texts -/

/-- Reduced decimals with the same text are the same. -/
theorem write_finite_inj (h : d.IsReduced) (h' : d'.IsReduced)
    (heq : l.write (.finite d) = l.write (.finite d')) : d = d' := by
  have hsign : ∀ (a : Decimal) cs, l.magnitudeChars a ≠ '-' :: cs := by
    intro a cs hcs
    obtain ⟨c, rest, hrest, hdigit⟩ := l.exists_digit_magnitudeChars a
    rw [hcs, List.cons.injEq] at hrest
    rw [← hrest.1] at hdigit
    exact absurd hdigit (by decide)
  obtain ⟨negative, digits, exponent⟩ := d
  obtain ⟨negative', digits', exponent'⟩ := d'
  rw [write, write, String.ofList_inj] at heq
  cases negative with
  | false =>
    cases negative' with
    | false =>
      obtain ⟨rfl, rfl⟩ := magnitudeChars_inj h h' heq
      rfl
    | true => exact absurd heq (hsign _ _)
  | true =>
    cases negative' with
    | false => exact absurd heq.symm (hsign _ _)
    | true =>
      obtain ⟨rfl, rfl⟩ := magnitudeChars_inj h h' (List.cons.inj heq).2
      rfl

/-- The characters that the text of a decimal is made of. -/
theorem mem_write {c : Char} (h : c ∈ (l.write (.finite d)).toList) :
    c.isDigit ∨ c ∈ ['-', '.', 'e', '+'] := by
  rw [write, String.toList_ofList] at h
  have hmagnitude : c ∈ l.magnitudeChars d → c.isDigit ∨ c ∈ ['-', '.', 'e', '+'] := by
    intro hc
    by_cases hpos : l.isPositional d
    · rcases mem_magnitudeChars_of_isPositional hpos hc with hc | rfl
      · exact .inl hc
      · exact .inr (by simp)
    · obtain ⟨cs, hdigits, hcs⟩ := exists_magnitudeChars hpos
      obtain ⟨es, hes, -, hexponent⟩ := l.exists_exponentChars d.leading
      rw [hcs, hexponent, List.mem_append, List.mem_cons, List.mem_append] at hc
      rcases hc with hc | rfl | hc | hc
      · by_cases hpoint : c = '.'
        · exact .inr (by simp [hpoint])
        · apply Or.inl
          apply Decimal.isDigit_of_mem_digitChars (d := d)
          rw [← hdigits]
          exact List.mem_filter.2 ⟨hc, by simpa using hpoint⟩
      · exact .inr (by simp)
      · split at hc
        · exact .inr (by simp_all)
        · split at hc
          · exact .inr (by simp_all)
          · exact absurd hc List.not_mem_nil
      · exact .inl (hes c hc)
  split at h
  · rcases List.mem_cons.1 h with rfl | h
    · exact .inr (by simp)
    · exact hmagnitude h
  · exact hmagnitude h

end Layout

end SeismicHazard
