import Mathlib.Algebra.Order.Field.Basic
import Mathlib.Data.Rat.Floor
import Mathlib.Tactic.Linarith
import Mathlib.Tactic.NormNum
import Mathlib.Tactic.Ring
import SeismicHazard.Proofs.Grid.Edges

/-!
# Edges computed with rounding

The edges around a range are found by two divisions, and each of them is a product. All of these may
be rounded. A quotient that is moved across an integer misplaces an end by one bin at most, and that
bin is put back.

* `Rounding`: a rounding of small relative error.
* `Rounding.snappedEdges`: the edges around a range with rounded quotients and products.
* `Rounding.abs_multiple_sub_le`: how far a multiple of the width is moved.
* `Rounding.multiple_fst_indices_le`, `Rounding.le_multiple_snd_indices`: the first and the last
  multiple lie on either side of the range.
* `Rounding.snappedEdges_reach_around`: the edges ascend and reach around the range, and without
  rounding they do not reach further than they must.
-/

namespace SeismicHazard

section

variable {α : Type} [Field α] [LinearOrder α] [FloorRing α]

/-- A rounding whose relative error is at most `2⁻⁵³`. Nothing more is asked of it: it need not be
monotone. -/
structure Rounding (α : Type) [Field α] [LinearOrder α] where
  round : α → α
  error : ∀ x, |round x - x| ≤ |x| / 2 ^ 53

namespace Rounding

/-- The numbers of an ordered field with rounded products and quotients. -/
@[reducible]
def scalar (ρ : Rounding α) : Scalar α :=
  { (exactScalar : Scalar α) with
    toMul := ⟨fun x y => ρ.round (x * y)⟩
    toDiv := ⟨fun x y => ρ.round (x / y)⟩ }

/-- The edges around a range, with rounded quotients and products. -/
def snappedEdges (ρ : Rounding α) (lo hi width : α) : List α :=
  @SeismicHazard.snappedEdges α ρ.scalar lo hi width

/-- The indices of the first and the last edge around a range. -/
def indices (ρ : Rounding α) (lo hi width : α) : Int × Int :=
  @snappedIndices α ρ.scalar lo hi width

def multiple (ρ : Rounding α) (width : α) (i : Int) : α := ρ.round (i * width)

variable (ρ : Rounding α)

theorem snappedEdges_eq (lo hi width : α) : ρ.snappedEdges lo hi width =
    (List.range ((ρ.indices lo hi width).2 + 1 - (ρ.indices lo hi width).1).toNat).map
      fun i : Nat => ρ.multiple width ((ρ.indices lo hi width).1 + i) := rfl

/-- A rounding that changes nothing leaves the edges as they are. -/
theorem snappedEdges_of_exact (h : ∀ x, ρ.round x = x) (lo hi width : α) :
    ρ.snappedEdges lo hi width = SeismicHazard.snappedEdges lo hi width := by
  obtain ⟨round, error⟩ := ρ
  obtain rfl : round = id := funext h
  rfl

/-! ### How far numbers are moved -/

/-- The index of the edge below the lower end, before its multiple is looked at. -/
def firstIndex (lo width : α) : Int := ⌊ρ.round (lo / width)⌋

/-- The index of the edge above the upper end, before its multiple is looked at. -/
def lastIndex (lo hi width : α) : Int :=
  Max.max ⌈ρ.round (hi / width)⌉ (ρ.firstIndex lo width + 1)

variable [IsStrictOrderedRing α] {ρ} {lo hi width : α}

/-- A quotient that is not too large is moved by an eighth at most. -/
theorem abs_round_sub_le {x : α} (hx : |x| ≤ 2 ^ 50) : |ρ.round x - x| ≤ 1 / 8 := by
  refine (ρ.error x).trans ?_
  rw [div_le_iff₀ (by positivity)]
  exact hx.trans (by norm_num)

theorem firstIndex_spec (hlo : |lo / width| ≤ 2 ^ 50) :
    (ρ.firstIndex lo width : α) ≤ lo / width + 1 / 8 ∧
      -2 ^ 50 - 1 ≤ ρ.firstIndex lo width ∧ ρ.firstIndex lo width ≤ 2 ^ 50 := by
  obtain ⟨hge, hle⟩ := abs_le.1 hlo
  obtain ⟨hdown, hup⟩ := abs_le.1 (abs_round_sub_le (ρ := ρ) hlo)
  unfold firstIndex
  refine ⟨?_, Int.le_floor.2 ?_, Int.lt_add_one_iff.1 (Int.floor_lt.2 ?_)⟩
  · linarith [Int.floor_le (ρ.round (lo / width))]
  · push_cast
    linarith
  · push_cast
    linarith

theorem lastIndex_spec (hlo : |lo / width| ≤ 2 ^ 50) (hhi : |hi / width| ≤ 2 ^ 50) :
    hi / width - 1 / 8 ≤ (ρ.lastIndex lo hi width : α) ∧
      ρ.firstIndex lo width < ρ.lastIndex lo hi width ∧ ρ.lastIndex lo hi width ≤ 2 ^ 50 + 1 := by
  obtain ⟨-, hle⟩ := abs_le.1 hhi
  obtain ⟨hdown, hup⟩ := abs_le.1 (abs_round_sub_le (ρ := ρ) hhi)
  obtain ⟨-, -, hfirst⟩ := firstIndex_spec (ρ := ρ) hlo
  have hceil : ⌈ρ.round (hi / width)⌉ ≤ 2 ^ 50 + 1 := by
    refine Int.ceil_le.2 ?_
    push_cast
    linarith
  unfold lastIndex
  refine ⟨?_, by omega, by omega⟩
  have hmax : (⌈ρ.round (hi / width)⌉ : α) ≤
      (Max.max ⌈ρ.round (hi / width)⌉ (ρ.firstIndex lo width + 1) : Int) :=
    Int.cast_le.2 (le_max_left _ _)
  linarith [Int.le_ceil (ρ.round (hi / width))]

/-- The indices are those of the quotients, or the next one where a multiple lies in the range. -/
theorem indices_eq (hlo : |lo / width| ≤ 2 ^ 50) (hhi : |hi / width| ≤ 2 ^ 50) :
    ρ.indices lo hi width =
      (if lo < ρ.multiple width (ρ.firstIndex lo width) then ρ.firstIndex lo width - 1
        else ρ.firstIndex lo width,
       if ρ.multiple width (ρ.lastIndex lo hi width) < hi then ρ.lastIndex lo hi width + 1
        else ρ.lastIndex lo hi width) := by
  obtain ⟨-, hmin, hfirstMax⟩ := firstIndex_spec (ρ := ρ) hlo
  obtain ⟨-, hlt, hmax⟩ := lastIndex_spec (ρ := ρ) hlo hhi
  have hword : ∀ {n : Int}, -2 ^ 50 - 2 ≤ n → n ≤ 2 ^ 50 + 2 → IsWord n :=
    fun hge hle => isWord_iff.2 (by omega)
  obtain ⟨hfirst, hlast⟩ : clampWord (ρ.firstIndex lo width) = ρ.firstIndex lo width ∧
      (if clampWord ⌈ρ.round (hi / width)⌉ ≤ ρ.firstIndex lo width
        then wrapWord (ρ.firstIndex lo width + 1)
        else clampWord ⌈ρ.round (hi / width)⌉) = ρ.lastIndex lo hi width :=
    clampWord_indices (hword (by omega) (by omega)).1
      (hword (n := ρ.lastIndex lo hi width) (by omega) (by omega)).2
  exact @snappedIndices_of_isWord α ρ.scalar lo hi width _ _ hfirst hlast
    (fun _ => hword (by omega) (by omega)) fun _ => hword (by omega) (by omega)

/-- A multiple of the width is moved by a quarter of it at most. -/
theorem abs_multiple_sub_le (hwidth : 0 < width) {i : Int} (hi : |i| ≤ 2 ^ 50 + 2) :
    |ρ.multiple width i - i * width| ≤ width / 4 := by
  have hcast : |(i : α)| ≤ 2 ^ 50 + 2 := by exact_mod_cast hi
  calc |ρ.multiple width i - i * width| ≤ |(i : α) * width| / 2 ^ 53 := ρ.error _
    _ = |(i : α)| * width / 2 ^ 53 := by rw [abs_mul, abs_of_pos hwidth]
    _ ≤ (2 ^ 50 + 2) * width / 2 ^ 53 := by gcongr
    _ ≤ width / 4 := by linarith

/-- Different multiples of the width stay apart. -/
theorem multiple_lt_multiple (hwidth : 0 < width) {i j : Int} (hi : |i| ≤ 2 ^ 50 + 2)
    (hj : |j| ≤ 2 ^ 50 + 2) (hij : i < j) : ρ.multiple width i < ρ.multiple width j := by
  have hstep : (i : α) * width + width ≤ j * width := by
    have hcast : (i : α) + 1 ≤ j := by exact_mod_cast hij
    nlinarith
  have hup := (abs_le.1 (abs_multiple_sub_le (ρ := ρ) hwidth hi)).2
  have hdown := (abs_le.1 (abs_multiple_sub_le (ρ := ρ) hwidth hj)).1
  linarith

/-! ### The ends of the edges -/

theorem indices_bounds (hlo : |lo / width| ≤ 2 ^ 50) (hhi : |hi / width| ≤ 2 ^ 50) :
    -2 ^ 50 - 2 ≤ (ρ.indices lo hi width).1 ∧
      (ρ.indices lo hi width).1 < (ρ.indices lo hi width).2 ∧
      (ρ.indices lo hi width).2 ≤ 2 ^ 50 + 2 := by
  obtain ⟨-, hmin, -⟩ := firstIndex_spec (ρ := ρ) hlo
  obtain ⟨-, hlt, hmax⟩ := lastIndex_spec (ρ := ρ) hlo hhi
  rw [indices_eq hlo hhi]
  split <;> split <;> simp only <;> omega

/-- The first multiple does not lie above the lower end: if it does at first, then by less than a
bin. -/
theorem multiple_fst_indices_le (hwidth : 0 < width) (hlo : |lo / width| ≤ 2 ^ 50)
    (hhi : |hi / width| ≤ 2 ^ 50) : ρ.multiple width (ρ.indices lo hi width).1 ≤ lo := by
  obtain ⟨hle, hmin, hmax⟩ := firstIndex_spec (ρ := ρ) hlo
  rw [indices_eq hlo hhi]
  simp only
  split
  · have hmoved := (abs_le.1 (abs_multiple_sub_le (ρ := ρ) hwidth
      (i := ρ.firstIndex lo width - 1) (abs_le.2 ⟨by omega, by omega⟩))).2
    have hindex : (ρ.firstIndex lo width : α) * width ≤ lo + width / 8 := by
      calc (ρ.firstIndex lo width : α) * width ≤ (lo / width + 1 / 8) * width := by gcongr
        _ = lo + width / 8 := by field_simp
    push_cast at hmoved
    linarith
  · next hge => exact not_lt.1 hge

/-- The last multiple does not lie below the upper end: if it does at first, then by less than a
bin. -/
theorem le_multiple_snd_indices (hwidth : 0 < width) (hlo : |lo / width| ≤ 2 ^ 50)
    (hhi : |hi / width| ≤ 2 ^ 50) : hi ≤ ρ.multiple width (ρ.indices lo hi width).2 := by
  obtain ⟨-, hmin, -⟩ := firstIndex_spec (ρ := ρ) hlo
  obtain ⟨hge, hlt, hmax⟩ := lastIndex_spec (ρ := ρ) hlo hhi
  rw [indices_eq hlo hhi]
  simp only
  split
  · have hmoved := (abs_le.1 (abs_multiple_sub_le (ρ := ρ) hwidth
      (i := ρ.lastIndex lo hi width + 1) (abs_le.2 ⟨by omega, by omega⟩))).1
    have hindex : hi - width / 8 ≤ (ρ.lastIndex lo hi width : α) * width := by
      calc hi - width / 8 = (hi / width - 1 / 8) * width := by field_simp
        _ ≤ (ρ.lastIndex lo hi width : α) * width := by gcongr
    push_cast at hmoved
    linarith
  · next hge' => exact not_lt.1 hge'

/-- The edges computed with rounding ascend and reach around the range. -/
theorem snappedEdges_around (hwidth : 0 < width) (hlo : |lo / width| ≤ 2 ^ 50)
    (hhi : |hi / width| ≤ 2 ^ 50) : Edges.Around (ρ.snappedEdges lo hi width) ⟨lo, hi⟩ := by
  obtain ⟨hmin, hlt, hmax⟩ := indices_bounds (ρ := ρ) hlo hhi
  rw [snappedEdges_eq]
  refine ⟨?_, ?_, ⟨_, head?_map_range hlt.le _, multiple_fst_indices_le hwidth hlo hhi⟩,
    ⟨_, getLast?_map_range hlt.le _, le_multiple_snd_indices hwidth hlo hhi⟩⟩
  · refine pairwise_map_range fun i j hi hij hj => ?_
    exact multiple_lt_multiple hwidth (abs_le.2 ⟨by omega, by omega⟩)
      (abs_le.2 ⟨by omega, by omega⟩) hij
  · rw [List.length_map, List.length_range]
    omega

end Rounding

/-! ### Without rounding -/

variable [IsStrictOrderedRing α] {lo hi width : α}

theorem fitsWord_of_abs_le (hlo : |lo / width| ≤ 2 ^ 50) (hhi : |hi / width| ≤ 2 ^ 50) :
    FitsWord width ⟨lo, hi⟩ := by
  obtain ⟨hge, hle⟩ := abs_le.1 hlo
  have hfirst : -2 ^ 50 ≤ ⌊lo / width⌋ ∧ ⌊lo / width⌋ ≤ 2 ^ 50 := by
    refine ⟨Int.le_floor.2 (by exact_mod_cast hge), ?_⟩
    exact_mod_cast (Int.floor_le _).trans hle
  have hlast : ⌈hi / width⌉ ≤ 2 ^ 50 := Int.ceil_le.2 (by exact_mod_cast (abs_le.1 hhi).2)
  have hword : (2 : Int) ^ 50 + 1 ≤ Int64.maxValue.toInt ∧
      Int64.minValue.toInt ≤ -2 ^ 50 := by decide
  exact ⟨hword.2.trans hfirst.1, le_trans (by simp only; omega) hword.1⟩

/-- The first of the exact edges is less than a bin below the range. -/
theorem lt_head?_snappedEdges (hwidth : 0 < width) (h : FitsWord width ⟨lo, hi⟩) :
    ∃ first, (snappedEdges lo hi width).head? = some first ∧ lo - width < first := by
  refine ⟨_, head?_snappedEdges hwidth h, ?_⟩
  have hfloor : lo < (⌊lo / width⌋ + 1) * width :=
    (div_lt_iff₀ hwidth).1 (Int.lt_floor_add_one _)
  simp only [multiple]
  linarith

/-- The last of the exact edges is less than a bin above the range, unless this is one multiple of
the width. -/
theorem getLast?_snappedEdges_lt (hle : lo ≤ hi) (hwidth : 0 < width)
    (h : FitsWord width ⟨lo, hi⟩) (hrange : ¬ (lo = hi ∧ ∃ n : Int, lo = n * width)) :
    ∃ last, (snappedEdges lo hi width).getLast? = some last ∧ last < hi + width := by
  refine ⟨_, getLast?_snappedEdges hwidth h, ?_⟩
  have hlt : ⌊lo / width⌋ < ⌈hi / width⌉ := by
    by_contra hge
    -- then both quotients are the integer between them
    have hmiddle : (⌈hi / width⌉ : α) ≤ ⌊lo / width⌋ := Int.cast_le.2 (not_lt.1 hge)
    have hquotients : lo / width ≤ hi / width := div_le_div_of_nonneg_right hle hwidth.le
    have hfloor := Int.floor_le (lo / width)
    have hceil := Int.le_ceil (hi / width)
    have hsame : lo / width = hi / width := by linarith
    have hinteger : lo / width = ⌊lo / width⌋ := by linarith
    exact hrange ⟨(div_left_inj' hwidth.ne').1 hsame, ⌊lo / width⌋,
      (div_eq_iff hwidth.ne').1 hinteger⟩
  simp only [multiple]
  rw [max_eq_left (by omega)]
  have hceil : ((⌈hi / width⌉ : α) - 1) * width < hi :=
    (lt_div_iff₀ hwidth).1 (by linarith [Int.ceil_lt_add_one (hi / width)])
  linarith

/-- A range of one multiple of the width has one bin. -/
theorem snappedEdges_multiple (hwidth : 0 < width) {n : Int}
    (h : FitsWord width ⟨n * width, n * width⟩) :
    snappedEdges (n * width) (n * width) width = [n * width, n * width + width] := by
  have hquotient : (n : α) * width / width = n := mul_div_cancel_right₀ _ hwidth.ne'
  have hedges := snappedEdges_eq hwidth h
  simp only [hquotient, Int.floor_intCast, Int.ceil_intCast] at hedges
  rw [hedges, max_eq_right (by omega), multiples, show (n + 1 + 1 - n).toNat = 2 by omega]
  simp [multiple, List.range_succ, add_mul]

/-- Whatever the rounding, the edges are at least two, they ascend, they reach around the range, and
they are the rounded multiples of the width by successive integers. Without rounding they end less
than a bin beside the range, and a range that is one multiple of the width has the bin above it. -/
theorem Rounding.snappedEdges_reach_around (ρ : Rounding α) (hle : lo ≤ hi) (hwidth : 0 < width)
    (hlo : |lo / width| ≤ 2 ^ 50) (hhi : |hi / width| ≤ 2 ^ 50) :
    Edges.Around (ρ.snappedEdges lo hi width) ⟨lo, hi⟩ ∧
    (∃ first last : Int, first < last ∧ ρ.snappedEdges lo hi width =
      (List.range (last + 1 - first).toNat).map fun i : Nat =>
        ρ.round (((first + i : Int) : α) * width)) ∧
    ((∀ x, ρ.round x = x) →
      (∃ first, (ρ.snappedEdges lo hi width).head? = some first ∧ lo - width < first) ∧
      (¬ (lo = hi ∧ ∃ n : Int, lo = n * width) →
        ∃ last, (ρ.snappedEdges lo hi width).getLast? = some last ∧ last < hi + width) ∧
      (lo = hi → (∃ n : Int, lo = n * width) →
        ρ.snappedEdges lo hi width = [lo, lo + width])) := by
  have hfits := fitsWord_of_abs_le hlo hhi
  refine ⟨snappedEdges_around hwidth hlo hhi,
    ⟨_, _, (indices_bounds hlo hhi).2.1, ρ.snappedEdges_eq lo hi width⟩, fun hexact => ?_⟩
  rw [ρ.snappedEdges_of_exact hexact]
  refine ⟨lt_head?_snappedEdges hwidth hfits, getLast?_snappedEdges_lt hle hwidth hfits, ?_⟩
  rintro rfl ⟨n, rfl⟩
  exact snappedEdges_multiple hwidth hfits

theorem abs_outwards_sub_le (x : ℚ) : |x * (1 + 1 / (2 ^ 53 : Nat)) - x| ≤ |x| / 2 ^ 53 := by
  have hmoved : x * (1 + 1 / (2 ^ 53 : Nat)) - x = x * (1 / 2 ^ 53) := by
    push_cast
    ring
  have hpos : (0 : ℚ) < 1 / 2 ^ 53 := by norm_num
  rw [hmoved, abs_mul, abs_of_pos hpos, mul_one_div]

/-- Every number is moved away from zero as far as a rounding may move it. -/
def Rounding.outwards : Rounding ℚ := ⟨fun x => x * (1 + 1 / (2 ^ 53 : Nat)), abs_outwards_sub_le⟩

theorem abs_exact_sub_le (x : ℚ) : |x - x| ≤ |x| / 2 ^ 53 := by
  rw [sub_self, abs_zero]
  positivity

def Rounding.exact : Rounding ℚ := ⟨fun x => x, abs_exact_sub_le⟩

/-- The lower end is a multiple whose product is moved into the range; and a range of one multiple,
without rounding. -/
theorem Rounding.snappedEdges_reach_around_outwards :
    ((7 / 10 : ℚ) ≤ 71 / 100 ∧ (0 : ℚ) < 1 / 10 ∧ |(7 / 10 : ℚ) / (1 / 10)| ≤ 2 ^ 50 ∧
      |(71 / 100 : ℚ) / (1 / 10)| ≤ 2 ^ 50) ∧
    7 / 10 < outwards.multiple (1 / 10) 7 ∧
    Edges.Around (outwards.snappedEdges (7 / 10) (71 / 100) (1 / 10)) ⟨7 / 10, 71 / 100⟩ ∧
    exact.snappedEdges 6 6 (1 / 2) = [6, 6 + 1 / 2] := by
  have hlo : |(7 / 10 : ℚ) / (1 / 10)| ≤ 2 ^ 50 := by norm_num [abs_of_pos]
  have hhi : |(71 / 100 : ℚ) / (1 / 10)| ≤ 2 ^ 50 := by norm_num [abs_of_pos]
  have hone : |(6 : ℚ) / (1 / 2)| ≤ 2 ^ 50 := by norm_num [abs_of_pos]
  have hle : (7 / 10 : ℚ) ≤ 71 / 100 := by norm_num
  refine ⟨⟨hle, by norm_num, hlo, hhi⟩, by norm_num [multiple, outwards],
    (outwards.snappedEdges_reach_around hle (by norm_num) hlo hhi).1, ?_⟩
  obtain ⟨-, -, hexact⟩ := exact.snappedEdges_reach_around (le_refl 6) (by norm_num) hone hone
  exact (hexact fun _ => rfl).2.2 rfl ⟨12, by norm_num⟩

end

end SeismicHazard
