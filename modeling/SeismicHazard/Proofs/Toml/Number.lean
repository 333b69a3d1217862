import SeismicHazard.Proofs.Number.Reading
import SeismicHazard.Proofs.Toml.Quoted
import SeismicHazard.Toml.Scalar

/-!
# Numbers in TOML are read back

* `Toml.scalar?_natural`: a natural number of 63 bits.
* `Toml.scalar?_write`: digits around a point, with a sign.
-/

namespace SeismicHazard

namespace Toml

variable {c : Char} {cs ws fs rest : List Char}

/-! ### Digits -/

theorem digit?_of_isDigit (h : c.isDigit) : Literal.digit? c = some (c.toNat - '0'.toNat) :=
  if_pos h

theorem ne_underscore_of_isDigit (h : c.isDigit) : c ≠ '_' := by
  rintro rfl
  cases h

theorem underscored?_digits (hne : cs ≠ []) (h : ∀ c ∈ cs, c.isDigit) :
    underscored? Literal.digit? cs = some (cs.map fun c => c.toNat - '0'.toNat) := by
  induction cs with
  | nil => exact absurd rfl hne
  | cons c cs ih =>
    rw [List.forall_mem_cons] at h
    cases cs with
    | nil => simp [underscored?, digit?_of_isDigit h.1]
    | cons d ds =>
      have hd := ne_underscore_of_isDigit (h.2 d List.mem_cons_self)
      rw [underscored?.eq_4 _ _ _ (by simp) (by simp [hd]), ih (by simp) h.2, digit?_of_isDigit h.1]
      rfl

theorem underscored?_eq_none (hmem : c ∈ cs) (hne : c ≠ '_') (hdigit : c.isDigit = false) :
    underscored? Literal.digit? cs = none := by
  have hnone : Literal.digit? c = none := if_neg (by simp [hdigit])
  induction cs using underscored?.induct with
  | case1 => rfl
  | case2 d =>
    obtain rfl := List.mem_singleton.1 hmem
    simp [underscored?, hnone]
  | case3 d ds ih =>
    rw [underscored?]
    simp only [List.mem_cons] at hmem
    rcases hmem with rfl | h | h
    · rw [hnone]
      rfl
    · exact absurd h hne
    · rw [ih h]
      cases Literal.digit? d <;> rfl
  | case4 d ds hnil hunder ih =>
    rw [underscored?.eq_4 _ _ _ hnil hunder]
    rcases List.mem_cons.1 hmem with rfl | h
    · rw [hnone]
      rfl
    · rw [ih h]
      cases Literal.digit? d <;> rfl

theorem ofDigits_map (cs : List Char) :
    Literal.ofDigits (cs.map fun c => c.toNat - '0'.toNat) = Nat.ofDigitChars 10 cs 0 := by
  rw [Literal.ofDigits, List.foldl_map, Nat.ofDigitChars]
  simp only [Nat.mul_comm]

/-- Digits of which the first is no needless zero. -/
structure Whole (cs : List Char) : Prop where
  ne_nil : cs ≠ []
  digits : ∀ c ∈ cs, c.isDigit
  leading : cs.length = 1 ∨ cs.head? ≠ some '0'

theorem Whole.wholeDigits? (h : Whole cs) :
    wholeDigits? cs = some (cs.map fun c => c.toNat - '0'.toNat) := by
  unfold Toml.wholeDigits?
  rw [underscored?_digits h.ne_nil h.digits]
  refine if_neg ?_
  rintro ⟨hlength, hhead⟩
  rw [List.length_map] at hlength
  refine h.leading.resolve_left hlength ?_
  obtain ⟨c, ds, rfl⟩ := List.exists_cons_of_ne_nil h.ne_nil
  have hc := h.digits c List.mem_cons_self
  have hzero : c.toNat - '0'.toNat = 0 := by simpa using hhead
  rw [Char.isDigit_iff_toNat] at hc
  have hcode : c.toNat = '0'.toNat := by omega
  rw [← Char.ofNat_toNat c, hcode]
  rfl

/-! ### Runs of characters -/

theorem isScalarChar_of_isDigit (h : c.isDigit) : isScalarChar c := by
  simp [isScalarChar, Char.isAlphanum, h]

theorem afterDate?_eq_none (h : '-' ∉ cs.tail) : afterDate? cs = none := by
  refine afterDate?.eq_2 _ ?_
  rintro _ _ _ _ _ _ _ _ _ rfl
  simp at h

theorem isMoment_eq_false (hdate : '-' ∉ cs.tail) (htime : ':' ∉ cs) : isMoment cs = false := by
  have hnone : afterTime? cs = none := by
    refine afterTime?.eq_2 _ ?_
    rintro _ _ _ _ _ _ _ rfl
    simp at htime
  simp only [isMoment, afterDate?_eq_none hdate, isTime, hnone]

/-- A run ends where a character cannot belong to it. -/
theorem scalarRun_append (h : ∀ c ∈ cs, isScalarChar c) (hdate : afterDate? cs = none)
    (hrest : ∀ c ∈ rest.head?, isScalarChar c = false) : scalarRun (cs ++ rest) = (cs, rest) := by
  simp only [scalarRun, takeWhile_append_of_head h hrest, dropWhile_append_of_head h hrest, hdate]

/-! ### Integers -/

theorem sign_of_isDigit (h : c.isDigit) (cs : List Char) :
    Literal.sign (c :: cs) = (false, c :: cs) := by
  refine Literal.sign.eq_3 _ ?_ ?_
  · rintro _ heq
    rw [List.cons.injEq] at heq
    rw [heq.1] at h
    cases h
  · rintro _ heq
    rw [List.cons.injEq] at heq
    rw [heq.1] at h
    cases h

/-- No prefix of a base stands in front of digits and points. -/
theorem integer?_eq (h : ∀ d ∈ cs.tail.head?, d ∉ ['x', 'o', 'b']) : integer? cs =
    (wholeDigits? (Literal.sign cs).2).bind fun ds =>
      fit? (Literal.signed (Literal.sign cs).1 ds) := by
  refine integer?.eq_4 _ ?_ ?_ ?_
  all_goals
    rintro _ rfl
    exact absurd (h _ rfl) (by decide)

theorem head?_toDigits {n : Nat} (h : 0 < n) : (Nat.toDigits 10 n).head? ≠ some '0' := by
  induction n using Nat.strongRecOn with
  | ind n ih =>
    by_cases hn : n < 10
    · have hdigit : ∀ k : Fin 10, 0 < k.val → k.val.digitChar ≠ '0' := by decide
      rw [Nat.toDigits_of_lt_base hn]
      exact fun heq => hdigit ⟨n, hn⟩ h (Option.some.inj heq)
    · rw [Nat.toDigits_of_base_le (by omega) (by omega), List.head?_append_of_ne_nil _ Nat.toDigits_ne_nil]
      exact ih (n / 10) (by omega) (by omega)

theorem whole_toDigits (n : Nat) : Whole (Nat.toDigits 10 n) where
  ne_nil := Nat.toDigits_ne_nil
  digits _ h := Nat.isDigit_of_mem_toDigits (by omega) (by omega) h
  leading := by
    rcases Nat.eq_zero_or_pos n with rfl | h
    · exact .inl rfl
    · exact .inr (head?_toDigits h)

/-- A natural number of 63 bits. -/
theorem scalar?_natural {n : Nat} (h : n < 2 ^ 63) :
    scalar? (Nat.toDigits 10 n) = some (integer n) := by
  have hwhole := whole_toDigits n
  have hnot : ∀ {c : Char}, c.isDigit = false → c ∉ Nat.toDigits 10 n := fun hc hmem => by
    rw [hwhole.digits _ hmem] at hc
    cases hc
  have hmoment : isMoment (Nat.toDigits 10 n) = false :=
    isMoment_eq_false (fun hmem => hnot rfl (List.mem_of_mem_tail hmem)) (hnot rfl)
  have hsign : Literal.sign (Nat.toDigits 10 n) = (false, Nat.toDigits 10 n) := by
    obtain ⟨c, ds, hcs⟩ := List.exists_cons_of_ne_nil hwhole.ne_nil
    rw [hcs]
    exact sign_of_isDigit (hwhole.digits c (hcs ▸ List.mem_cons_self)) ds
  have hinteger : integer? (Nat.toDigits 10 n) = some (integer n) := by
    rw [integer?_eq, hsign, hwhole.wholeDigits?]
    · simp only [Option.bind_some, Literal.signed, ofDigits_map, Nat.ofDigitChars_ten_toDigits]
      refine if_pos ?_
      simp only [show Int64.minValue.toInt = -2 ^ 63 from rfl,
        show Int64.maxValue.toInt = 2 ^ 63 - 1 from rfl, Bool.false_eq_true, if_false]
      omega
    · intro d hd hmem
      have hdigit := hwhole.digits d (List.mem_of_mem_tail (List.mem_of_mem_head? hd))
      simp only [List.mem_cons, List.not_mem_nil, or_false] at hmem
      rcases hmem with rfl | rfl | rfl <;> cases hdigit
  unfold scalar?
  rw [hmoment, hinteger]
  rfl

/-! ### Digits around a point -/

/-- The characters of digits around a point, with a sign. -/
def pointChars (negative : Bool) (ws fs : List Char) : List Char :=
  (if negative then ['-'] else []) ++ (ws ++ '.' :: fs)

theorem sign_pointChars (negative : Bool) (h : Whole ws) :
    Literal.sign (pointChars negative ws fs) = (negative, ws ++ '.' :: fs) := by
  cases negative with
  | true => rfl
  | false =>
    obtain ⟨c, ds, rfl⟩ := List.exists_cons_of_ne_nil h.ne_nil
    exact sign_of_isDigit (h.digits c List.mem_cons_self) _

theorem mem_point (h : Whole ws) (hfs : ∀ c ∈ fs, c.isDigit) (hc : c ∈ ws ++ '.' :: fs) :
    c.isDigit ∨ c = '.' := by
  rcases List.mem_append.1 hc with hc | hc
  · exact .inl (h.digits c hc)
  · exact (List.mem_cons.1 hc).symm.imp_left (hfs c)

theorem mem_pointChars {negative : Bool} (h : Whole ws) (hfs : ∀ c ∈ fs, c.isDigit)
    (hc : c ∈ pointChars negative ws fs) : c.isDigit ∨ c = '.' ∨ c = '-' := by
  rcases List.mem_append.1 hc with hc | hc
  · cases negative with
    | true => exact .inr (.inr (List.mem_singleton.1 hc))
    | false => cases hc
  · exact (mem_point h hfs hc).imp_right .inl

/-- A minus sign stands in front only. -/
theorem mem_tail_pointChars {negative : Bool} (h : Whole ws) (hfs : ∀ c ∈ fs, c.isDigit)
    (hc : c ∈ (pointChars negative ws fs).tail) : c.isDigit ∨ c = '.' := by
  cases negative with
  | true => exact mem_point h hfs hc
  | false => exact mem_point h hfs (List.mem_of_mem_tail hc)

/-- Digits around a point stand for a number that is not too large. -/
theorem isMoment_pointChars (negative : Bool) (h : Whole ws) (hfs : ∀ c ∈ fs, c.isDigit) :
    isMoment (pointChars negative ws fs) = false := by
  refine isMoment_eq_false (fun hmem => ?_) (fun hmem => ?_)
  · exact absurd (mem_tail_pointChars h hfs hmem) (by decide)
  · exact absurd (mem_pointChars h hfs hmem) (by decide)

/-- The point is no digit of an integer. -/
theorem integer?_pointChars (negative : Bool) (h : Whole ws) (hfs : ∀ c ∈ fs, c.isDigit) :
    integer? (pointChars negative ws fs) = none := by
  rw [integer?_eq, sign_pointChars negative h]
  · have hnone : underscored? Literal.digit? (ws ++ '.' :: fs) = none :=
      underscored?_eq_none (c := '.') (by simp) (by decide) rfl
    unfold wholeDigits?
    rw [hnone]
    rfl
  · intro d hd hmem
    have := mem_tail_pointChars h hfs (List.mem_of_mem_head? hd)
    simp only [List.mem_cons, List.not_mem_nil, or_false] at hmem
    rcases hmem with rfl | rfl | rfl <;> exact absurd this (by decide)

/-- The digits before and after the point are those of the number. -/
theorem float?_pointChars (negative : Bool) (h : Whole ws) (hne : fs ≠ [])
    (hfs : ∀ c ∈ fs, c.isDigit)
    (hsmall : isTooLarge ⟨negative, Nat.ofDigitChars 10 (ws ++ fs) 0, -(fs.length : Int)⟩ = false) :
    float? (pointChars negative ws fs) = some (float (.finite
      ⟨negative, Nat.ofDigitChars 10 (ws ++ fs) 0, -(fs.length : Int)⟩)) := by
  have hexponent : ∀ c ∈ ws ++ '.' :: fs, (!beginsExponent c) = true := by
    intro c hc
    rcases mem_point h hfs hc with hdigit | rfl
    · simp only [beginsExponent, Bool.not_eq_true', Bool.or_eq_false_iff, beq_eq_false_iff_ne]
      constructor <;> (rintro rfl; cases hdigit)
    · rfl
  have hwhole : ∀ c ∈ ws, (c != '.') = true := by
    intro c hc
    have := h.digits c hc
    rw [bne_iff_ne]
    rintro rfl
    cases this
  have hmantissa := List.takeWhile_eq_self_iff.2 hexponent
  have hafter := List.dropWhile_eq_nil_iff.2 hexponent
  have htake : (ws ++ '.' :: fs).takeWhile (· != '.') = ws :=
    takeWhile_append_of_head hwhole (by simp)
  have hdrop : (ws ++ '.' :: fs).dropWhile (· != '.') = '.' :: fs :=
    dropWhile_append_of_head hwhole (by simp)
  have hfraction : fraction? ('.' :: fs) = some (some (fs.map fun c => c.toNat - '0'.toNat)) := by
    rw [fraction?, underscored?_digits hne hfs]
    rfl
  have hnumeral : (Literal.mk negative (ws.map fun c => c.toNat - '0'.toNat)
      (some (fs.map fun c => c.toNat - '0'.toNat)) none).numeral =
        .finite ⟨negative, Nat.ofDigitChars 10 (ws ++ fs) 0, -(fs.length : Int)⟩ := by
    simp only [Literal.numeral, Literal.exponentValue, Option.getD_some, ← List.map_append,
      ofDigits_map, List.length_map, Int.zero_sub]
  simp only [float?, sign_pointChars negative h, hmantissa, hafter, htake, hdrop, h.wholeDigits?,
    hfraction, exponent?, Option.bind_eq_bind, Option.bind_some, hnumeral, hsmall]
  rfl

theorem scalar?_pointChars (negative : Bool) (h : Whole ws) (hne : fs ≠ [])
    (hfs : ∀ c ∈ fs, c.isDigit)
    (hsmall : isTooLarge ⟨negative, Nat.ofDigitChars 10 (ws ++ fs) 0, -(fs.length : Int)⟩ = false) :
    scalar? (pointChars negative ws fs) = some (float (.finite
      ⟨negative, Nat.ofDigitChars 10 (ws ++ fs) 0, -(fs.length : Int)⟩)) := by
  unfold scalar?
  rw [isMoment_pointChars negative h hfs, integer?_pointChars negative h hfs,
    float?_pointChars negative h hne hfs hsmall]
  rfl

/-! ### Decimals -/

section

variable {d : Decimal}

/-- The digits of the fraction as they are written: a whole number has a lone zero. -/
def fractionChars (d : Decimal) : List Char := if d.split.2 = [] then ['0'] else d.split.2

/-- The decimal that is read from the text of another one. -/
def printed (d : Decimal) : Decimal :=
  ⟨d.negative, Nat.ofDigitChars 10 (d.split.1 ++ fractionChars d) 0, -((fractionChars d).length : Int)⟩

theorem toList_write (d : Decimal) :
    (layout.write (.finite d)).toList = pointChars d.negative d.split.1 (fractionChars d) := by
  have hmagnitude : layout.magnitudeChars d = d.split.1 ++ '.' :: fractionChars d := by
    have hpositional : layout.isPositional d := by simp [Layout.isPositional, layout]
    rw [Layout.magnitudeChars_of_isPositional hpositional, Layout.afterWhole, fractionChars]
    split
    · rfl
    · rfl
  rw [Layout.write, String.toList_ofList, hmagnitude, pointChars]
  cases d.negative with
  | true => rfl
  | false => rfl

theorem whole_split (h : d.IsReduced) : Whole d.split.1 where
  ne_nil := d.split_fst_ne_nil
  digits _ hc := Decimal.isDigit_of_mem_split (List.mem_append_left _ hc)
  leading := by
    have hhead : d.digits ≠ 0 → d.digitChars.head? ≠ some '0' := fun hne =>
      head?_toDigits (Nat.pos_of_ne_zero hne)
    have hexponent : d.digits = 0 → d.exponent = 0 := by
      intro hzero
      rcases h with h | h
      · omega
      · exact h.2
    unfold Decimal.split
    split
    · by_cases hzero : d.digits = 0
      · refine .inl ?_
        simp [hexponent hzero, Decimal.digitChars, hzero]
      · refine .inr ?_
        rw [List.head?_append_of_ne_nil _ d.digitChars_ne_nil]
        exact hhead hzero
    · next hneg =>
      have hne : d.digits ≠ 0 := fun hzero => hneg (hexponent hzero).ge
      simp only
      split
      · refine .inr ?_
        rw [List.head?_take, if_neg (by omega)]
        exact hhead hne
      · exact .inl rfl

theorem fractionChars_ne_nil (d : Decimal) : fractionChars d ≠ [] := by
  unfold fractionChars
  split
  · exact List.cons_ne_nil _ _
  · next h => exact h

theorem isDigit_of_mem_fractionChars {c : Char} (h : c ∈ fractionChars d) : c.isDigit := by
  unfold fractionChars at h
  split at h
  · rw [List.mem_singleton.1 h]
    rfl
  · exact Decimal.isDigit_of_mem_split (List.mem_append_right _ h)

/-- What is read has the same value. -/
theorem magnitude_printed (d : Decimal) : (printed d).magnitude = d.magnitude := by
  have hlength := d.length_split_snd
  have hdigits := d.ofDigitChars_split
  unfold Decimal.magnitude printed fractionChars
  split
  · next hnil =>
    have hexponent : 0 ≤ d.exponent := by
      rw [hnil] at hlength
      simp only [List.length_nil] at hlength
      omega
    rw [hnil, List.append_nil] at hdigits
    have hzero : ∀ n, Nat.ofDigitChars 10 ['0'] n = 10 * n := fun n => rfl
    have hpower : (10 : ℚ) ^ d.exponent.toNat = 10 ^ d.exponent := by
      rw [← zpow_natCast, Int.toNat_of_nonneg hexponent]
    simp only [Nat.ofDigitChars_append, hdigits, hzero, List.length_singleton]
    push_cast
    rw [hpower, zpow_neg_one]
    ring
  · next hne =>
    have hexponent : d.exponent < 0 := by
      have := List.length_pos_iff.2 hne
      omega
    have hzero : d.exponent.toNat = 0 := by omega
    have hplaces : -(d.split.2.length : ℤ) = d.exponent := by omega
    rw [hdigits, hzero, pow_zero, mul_one]
    simp only [hplaces]

/-- A decimal near a double is not too large. -/
theorem isTooLarge_eq_false (h : d.magnitude < Double.limit) : isTooLarge d = false := by
  have hlimit := Double.limit_lt
  unfold isTooLarge
  rw [show (1 <<< 1024 - 1 <<< 970 : ℕ) = Double.limit from rfl]
  generalize Double.limit = limit at h hlimit
  by_cases hzero : d.digits = 0
  · simp [hzero]
  · have hleading : d.leading < 309 :=
      (zpow_lt_zpow_iff_right₀ (by norm_num)).1
        ((d.ten_zpow_leading_le hzero).trans_lt (h.trans hlimit))
    have hle : ¬ limit * Nat.pow 10 (-d.exponent).toNat ≤ d.digits * Nat.pow 10 d.exponent.toNat := by
      have hpos : (0 : ℚ) < 10 ^ (-d.exponent).toNat := by positivity
      rw [Decimal.magnitude, ← Shortest.pow_toNat_div_pow_toNat, ← mul_div_assoc, div_lt_iff₀ hpos] at h
      rw [not_le]
      exact_mod_cast h
    rw [decide_eq_false (show ¬ 310 < d.leading by omega), decide_eq_false hle]
    simp

/-- A decimal near a double is read back with the same sign and value. -/
theorem scalar?_write (h : d.IsReduced) (hsmall : d.magnitude < Double.limit) :
    scalar? (layout.write (.finite d)).toList = some (float (.finite (printed d))) := by
  rw [toList_write]
  refine scalar?_pointChars _ (whole_split h) (fractionChars_ne_nil d)
    (fun _ => isDigit_of_mem_fractionChars) ?_
  exact @isTooLarge_eq_false (printed d) (by rwa [magnitude_printed])

end

end Toml

end SeismicHazard
