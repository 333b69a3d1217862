import SeismicHazard.Grid.Extent
import SeismicHazard.Proofs.Grid.Edges
import SeismicHazard.Proofs.Number.Double

/-!
# Indices of edges in words of 64 bits

The indices of the multiples of a width around a range are kept in words: a quotient that is no word is
replaced by the nearest one, and a step to the next index that leaves the words ends at their other
end.

* `snappedWords?`: the indices where nothing needs to be replaced, else absent.
* `WordIndices`: every index that is needed is a word.
* `snappedWords?_eq_some`: when the former are there, and that they are the indices then.
* `two_le_length_snappedEdges`: there are two edges if every index is a word.
* `Double.wordIndices_iff`: for doubles no step upwards leaves the words.
-/

namespace SeismicHazard

/-- The integer as a word of 64 bits. -/
def word? (n : Int) : Option Int := if IsWord n then some n else none

theorem word?_eq_some {n k : Int} : word? n = some k ↔ IsWord n ∧ n = k := by
  unfold word?
  split
  · next h => simp [h]
  · next h => simp [h]

/-- The index `n`, or instead of it `n'` as a word where a condition holds. -/
def wordUnless (c : Prop) [Decidable c] (n n' : Int) : Option Int := if c then word? n' else some n

theorem wordUnless_eq_some {c : Prop} [Decidable c] {n n' k : Int} :
    wordUnless c n n' = some k ↔ (c → IsWord n') ∧ (if c then n' else n) = k := by
  unfold wordUnless
  by_cases hc : c
  · simp [hc, word?_eq_some]
  · simp [hc]

section

variable {α : Type} [Scalar α] {lo hi width : α} {x : Int × Int}

/-- The first and the last index of the multiples of `width` around a range, with a check instead of
every replacement: they are absent if a quotient is no word, or an index next to it that is needed. -/
def snappedWords? (lo hi width : α) : Option (Int × Int) := do
  let first ← word? (Scalar.floor (lo / width))
  let last ← word? (Scalar.ceil (hi / width))
  let last ← wordUnless (last ≤ first) last (first + 1)
  let below ← wordUnless (lo < multiple width first) first (first - 1)
  let above ← wordUnless (multiple width last < hi) last (last + 1)
  return (below, above)

/-- The last index before its multiple is compared with the range. -/
def lastIndex (lo hi width : α) : Int :=
  if Scalar.ceil (hi / width) ≤ Scalar.floor (lo / width) then Scalar.floor (lo / width) + 1
  else Scalar.ceil (hi / width)

/-- Both quotients are words, and so is every index next to them that is needed. -/
structure WordIndices (lo hi width : α) : Prop where
  first : IsWord (Scalar.floor (lo / width))
  last : IsWord (Scalar.ceil (hi / width))
  differ : Scalar.ceil (hi / width) ≤ Scalar.floor (lo / width) →
    IsWord (Scalar.floor (lo / width) + 1)
  below : lo < multiple width (Scalar.floor (lo / width)) → IsWord (Scalar.floor (lo / width) - 1)
  above : multiple width (lastIndex lo hi width) < hi → IsWord (lastIndex lo hi width + 1)

theorem snappedIndices_of_wordIndices (h : WordIndices lo hi width) : snappedIndices lo hi width =
    (if lo < multiple width (Scalar.floor (lo / width)) then Scalar.floor (lo / width) - 1
      else Scalar.floor (lo / width),
     if multiple width (lastIndex lo hi width) < hi then lastIndex lo hi width + 1
      else lastIndex lo hi width) := by
  refine snappedIndices_of_isWord (clampWord_of_isWord h.first) ?_ h.below h.above
  rw [clampWord_of_isWord h.last]
  exact ite_congr rfl (fun hle => wrapWord_of_isWord (h.differ hle)) fun _ => rfl

/-- The indices that need no replacement, if they are there, are the indices. -/
theorem snappedWords?_eq_some : snappedWords? lo hi width = some x ↔
    WordIndices lo hi width ∧ x = snappedIndices lo hi width := by
  have hwords : snappedWords? lo hi width = some x ↔ WordIndices lo hi width ∧
      x = (if lo < multiple width (Scalar.floor (lo / width)) then Scalar.floor (lo / width) - 1
            else Scalar.floor (lo / width),
           if multiple width (lastIndex lo hi width) < hi then lastIndex lo hi width + 1
            else lastIndex lo hi width) := by
    unfold snappedWords?
    simp only [Option.bind_eq_bind, Option.bind_eq_some_iff, word?_eq_some, wordUnless_eq_some]
    constructor
    · rintro ⟨_, ⟨hfirst, rfl⟩, _, ⟨hlast, rfl⟩, _, ⟨hdiffer, rfl⟩, _, ⟨hbelow, rfl⟩, _,
        ⟨habove, rfl⟩, h⟩
      exact ⟨⟨hfirst, hlast, hdiffer, hbelow, habove⟩, (Option.some.inj h).symm⟩
    · rintro ⟨⟨hfirst, hlast, hdiffer, hbelow, habove⟩, rfl⟩
      exact ⟨_, ⟨hfirst, rfl⟩, _, ⟨hlast, rfl⟩, _, ⟨hdiffer, rfl⟩, _, ⟨hbelow, rfl⟩, _,
        ⟨habove, rfl⟩, rfl⟩
  rw [hwords]
  refine and_congr_right fun h => ?_
  rw [snappedIndices_of_wordIndices h]

theorem isSome_snappedWords?_iff : (snappedWords? lo hi width).isSome ↔ WordIndices lo hi width := by
  rw [Option.isSome_iff_exists]
  simp only [snappedWords?_eq_some, exists_and_left, exists_eq, and_true]

/-- The indices differ, so that there is a bin. -/
theorem snappedIndices_lt (h : WordIndices lo hi width) :
    (snappedIndices lo hi width).1 < (snappedIndices lo hi width).2 := by
  have hlt : Scalar.floor (lo / width) < lastIndex lo hi width := by
    unfold lastIndex
    split <;> omega
  rw [snappedIndices_of_wordIndices h]
  simp only
  split <;> split <;> omega

theorem two_le_length_snappedEdges (h : WordIndices lo hi width) :
    2 ≤ (snappedEdges lo hi width).length := by
  have hlt := snappedIndices_lt h
  unfold snappedEdges multiples
  simp only [List.length_map, List.length_range]
  omega

end

/-! ### Doubles -/

namespace Double

variable {bits : UInt64}

/-- Of the integers that a double can be, those below `2 ^ 63` are below it by far. -/
theorem scaled_le {s : ℤ} {k : ℕ} (hs : s < 2 ^ 53) (h : s * 2 ^ k < 2 ^ 63) :
    s * 2 ^ k ≤ 2 ^ 63 - 2 ^ 10 := by
  by_cases hk : k < 10
  · have hpow : (2 : ℤ) ^ k ≤ 2 ^ 9 := pow_le_pow_right₀ (by norm_num) (by omega)
    have hpos : (0 : ℤ) < 2 ^ k := by positivity
    nlinarith
  · -- both are multiples of `2 ^ 10`
    obtain ⟨j, rfl⟩ : ∃ j, k = 10 + j := ⟨k - 10, by omega⟩
    rw [pow_add] at h ⊢
    generalize hn : s * 2 ^ j = n
    have hmul : s * (2 ^ 10 * 2 ^ j) = 2 ^ 10 * n := by
      rw [← hn]
      ring
    rw [hmul] at h ⊢
    omega

theorem significand_lt {negative : Bool} {m : ℕ} {e : ℤ} (h : parts bits = .finite negative m e) :
    (if negative then -(m : ℤ) else m) < 2 ^ 53 ∧ -(if negative then -(m : ℤ) else m) < 2 ^ 53 := by
  have hm : m < 2 ^ 53 := by
    obtain ⟨-, ⟨-, rfl, -⟩ | ⟨-, -, rfl, -⟩⟩ := parts_eq_finite.1 h
    · omega
    · omega
  split
  · omega
  · omega

theorem not_isWord_beyond : ¬ IsWord beyond ∧ ¬ IsWord (-beyond) := by decide

/-- A double that is rounded to a word is rounded to one that others follow. -/
theorem rounded_le (bits : UInt64) :
    (IsWord (floorBits bits) → floorBits bits ≤ 2 ^ 63 - 2 ^ 10) ∧
      (IsWord (ceilBits bits) → ceilBits bits ≤ 2 ^ 63 - 2 ^ 10) := by
  unfold floorBits ceilBits
  cases hparts : parts bits with
  | nan => exact ⟨fun _ => by norm_num, fun _ => by norm_num⟩
  | infinite negative =>
    have hno : ¬ IsWord (if negative then -beyond else beyond) := by
      cases negative with
      | false => exact not_isWord_beyond.1
      | true => exact not_isWord_beyond.2
    exact ⟨fun h => absurd h hno, fun h => absurd h hno⟩
  | finite negative m e =>
    obtain ⟨hs, hs'⟩ := significand_lt hparts
    simp only [Nat.one_shiftLeft, Nat.cast_pow, Nat.cast_ofNat]
    generalize (if negative then -(m : ℤ) else m) = s at hs hs' ⊢
    by_cases he : 0 ≤ e
    · have hscaled (h : IsWord (s * 2 ^ e.toNat)) : s * 2 ^ e.toNat ≤ 2 ^ 63 - 2 ^ 10 :=
        scaled_le hs (Int.lt_of_le_sub_one h.2)
      rw [if_pos he, if_pos he]
      exact ⟨hscaled, hscaled⟩
    · have hpos : (1 : ℤ) ≤ 2 ^ (-e).toNat := one_le_pow₀ (by norm_num)
      have hfloor : s / 2 ^ (-e).toNat < 2 ^ 53 := Int.ediv_lt_of_lt_mul (by omega) (by nlinarith)
      have hceil : -2 ^ 53 ≤ -s / 2 ^ (-e).toNat := Int.le_ediv_of_mul_le (by omega) (by nlinarith)
      rw [if_neg he, if_neg he]
      exact ⟨fun _ => by omega, fun _ => by omega⟩

/-- For doubles the words are left by a quotient, or from the least word downwards. -/
theorem wordIndices_iff {lo hi width : Float} : WordIndices lo hi width ↔
    IsWord (Scalar.floor (lo / width)) ∧ IsWord (Scalar.ceil (hi / width)) ∧
      ¬ (Scalar.floor (lo / width) = -2 ^ 63 ∧ lo < multiple width (-2 ^ 63)) := by
  constructor
  · intro h
    refine ⟨h.first, h.last, ?_⟩
    rintro ⟨hleast, hbelow⟩
    have hword := h.below (hleast ▸ hbelow)
    rw [hleast] at hword
    exact absurd hword (by decide)
  · rintro ⟨hfirst, hlast, hleast⟩
    have hfirstLe : Scalar.floor (lo / width) ≤ 2 ^ 63 - 2 ^ 10 :=
      (rounded_le _).1 hfirst
    have hlastLe : Scalar.ceil (hi / width) ≤ 2 ^ 63 - 2 ^ 10 :=
      (rounded_le _).2 hlast
    rw [isWord_iff] at hfirst hlast
    refine ⟨hfirst, hlast, fun _ => isWord_iff.2 (by omega), fun hbelow => isWord_iff.2 ?_,
      fun _ => isWord_iff.2 ?_⟩
    · have hne : Scalar.floor (lo / width) ≠ -2 ^ 63 := fun h => hleast ⟨h, h ▸ hbelow⟩
      omega
    · unfold lastIndex
      split
      · omega
      · omega

end Double

end SeismicHazard
