import Mathlib.Algebra.Order.Field.Basic
import Mathlib.Tactic.Linarith
import SeismicHazard.Grid.Basic
import SeismicHazard.Grid.Edges
import SeismicHazard.Proofs.Arrangement.Locate
import SeismicHazard.Proofs.Number.Exact
import SeismicHazard.Number.Span

/-!
# Edges reach around their range

* `snappedIndices_of_isWord`: indices that are words are those of two multiples, or next to them.
* `Edges.Around`: ascending edges, at least two, that reach around a range.
* `Edges.Cut`: ascending edges from one end of a range to the other.
* `snappedEdges_around`: the multiples of a width around a range do, if their indices fit into a word.
* `epsilonEdges_cut`: the epsilon edges cut a symmetric range.
* `Grid.validate_eq_ok_iff`: ascending edges make bins, and no others do.
-/

namespace SeismicHazard

/-! ### Indices in words -/

/-- Whether `n` is an integer of 64 bits. -/
def IsWord (n : Int) : Prop := Int64.minValue.toInt ≤ n ∧ n ≤ Int64.maxValue.toInt

instance : DecidablePred IsWord := fun _ => inferInstanceAs (Decidable (_ ∧ _))

theorem isWord_iff {n : Int} : IsWord n ↔ -2 ^ 63 ≤ n ∧ n ≤ 2 ^ 63 - 1 := Iff.rfl

theorem clampWord_of_isWord {n : Int} (h : IsWord n) : clampWord n = n := by
  obtain ⟨hmin, hmax⟩ := h
  unfold clampWord
  omega

theorem wrapWord_of_isWord {n : Int} (h : IsWord n) : wrapWord n = n := by
  obtain ⟨hmin, hmax⟩ := isWord_iff.1 h
  have hsize : (UInt64.size : Int) = 2 ^ 64 := rfl
  exact Int.bmod_eq_of_le (by omega) (by omega)

/-- Words are kept as they are, and so is the larger of a word and the index after another one. -/
theorem clampWord_indices {first last : Int} (hmin : Int64.minValue.toInt ≤ first)
    (hmax : Max.max last (first + 1) ≤ Int64.maxValue.toInt) : clampWord first = first ∧
      (if clampWord last ≤ first then wrapWord (first + 1) else clampWord last) =
        Max.max last (first + 1) := by
  rw [wrapWord_of_isWord ⟨by omega, by omega⟩]
  unfold clampWord
  constructor
  · omega
  · split <;> omega

section

variable {α : Type} [Scalar α] {lo hi width : α} {first last : Int}

/-- The indices, from the first and the last one before their multiples are compared with the range. -/
theorem snappedIndices_of_isWord (hfirst : clampWord (Scalar.floor (lo / width)) = first)
    (hlast : (if clampWord (Scalar.ceil (hi / width)) ≤ first then wrapWord (first + 1)
      else clampWord (Scalar.ceil (hi / width))) = last)
    (hbelow : lo < multiple width first → IsWord (first - 1))
    (habove : multiple width last < hi → IsWord (last + 1)) :
    snappedIndices lo hi width =
      (if lo < multiple width first then first - 1 else first,
       if multiple width last < hi then last + 1 else last) := by
  unfold snappedIndices
  simp only [hfirst, hlast]
  refine Prod.ext ?_ ?_
  · exact ite_congr rfl (fun hlt => wrapWord_of_isWord (hbelow hlt)) fun _ => rfl
  · exact ite_congr rfl (fun hlt => wrapWord_of_isWord (habove hlt)) fun _ => rfl

end

section

variable {α : Type} [Field α] [LinearOrder α] [FloorRing α]

/-! ### Ascending edges -/

/-- Ascending edges, at least two of them, that reach around a range. -/
structure Edges.Around (edges : List α) (s : Span α) : Prop where
  ascending : edges.Pairwise (· < ·)
  bins : 2 ≤ edges.length
  below : ∃ a, edges.head? = some a ∧ a ≤ s.lo
  above : ∃ b, edges.getLast? = some b ∧ s.hi ≤ b

theorem Edges.Around.enclose {edges : List α} {s : Span α} (h : Edges.Around edges s) {x : α}
    (hx : s.lo ≤ x ∧ x ≤ s.hi) : Edges.Enclose edges x := by
  obtain ⟨a, ha, hlo⟩ := h.below
  obtain ⟨b, hb, hhi⟩ := h.above
  exact ⟨a, ha, b, hb, hlo.trans hx.1, hx.2.trans hhi⟩

/-- Ascending edges from the lower to the upper end of a range. -/
structure Edges.Cut (edges : List α) (s : Span α) : Prop where
  ascending : edges.Pairwise (· < ·)
  first : edges.head? = some s.lo
  last : edges.getLast? = some s.hi

/-- Edges lie within the range that they cut. -/
theorem Edges.Cut.mem {edges : List α} {s : Span α} (h : Edges.Cut edges s) {x : α}
    (hx : x ∈ edges) : s.lo ≤ x ∧ x ≤ s.hi := by
  obtain ⟨i, hi⟩ := List.mem_iff_getElem?.1 hx
  have hlength : i < edges.length := (List.getElem?_eq_some_iff.1 hi).1
  have hfirst : edges[0]? = some s.lo := List.head?_eq_getElem? ▸ h.first
  have hlast : edges[edges.length - 1]? = some s.hi := List.getLast?_eq_getElem? ▸ h.last
  exact ⟨getElem_le_of_pairwise h.ascending (Nat.zero_le i) hfirst hi,
    getElem_le_of_pairwise h.ascending (by omega) hi hlast⟩

/-- Edges that cut a range which is no single number reach around it. -/
theorem Edges.Cut.around {edges : List α} {s : Span α} (h : Edges.Cut edges s) (hlt : s.lo < s.hi) :
    Edges.Around edges s := by
  refine ⟨h.ascending, ?_, ⟨_, h.first, le_rfl⟩, ⟨_, h.last, le_rfl⟩⟩
  obtain ⟨rest, rfl⟩ := List.head?_eq_some_iff.1 h.first
  cases rest with
  | nil => exact absurd (Option.some.inj h.last) hlt.ne
  | cons next rest => exact Nat.le_add_left 2 rest.length

theorem Grid.edgesFault?_eq_none_iff {axis : Axis} {edges : List α} :
    edgesFault? axis edges = none ↔ 2 ≤ edges.length ∧ edges.Pairwise (· < ·) := by
  have hneighbours : anyNeighbours (fun a b => !decide (a < b)) edges = false ↔
      edges.Pairwise (· < ·) := anyNeighbours_eq_false_iff (by simp)
  rw [← hneighbours, ← not_lt, edgesFault?]
  split <;> simp [*]

/-- A grid is sound if there are bins along every axis and the edges ascend. -/
theorem Grid.validate_eq_ok_iff {g : Grid α} : g.validate = .ok () ↔
    ∀ p ∈ g.axes, 2 ≤ p.2.length ∧ p.2.Pairwise (· < ·) := by
  have hfault : g.fault? = none ↔ ∀ p ∈ g.axes, 2 ≤ p.2.length ∧ p.2.Pairwise (· < ·) := by
    unfold fault?
    rw [List.findSome?_eq_none_iff]
    exact forall₂_congr fun _ _ => edgesFault?_eq_none_iff
  rw [← hfault, validate]
  cases g.fault? <;> simp

/-- Edges that ascend along every axis make bins. -/
theorem Grid.validate_eq_ok {g : Grid α}
    (h : ∀ p ∈ g.axes, 2 ≤ p.2.length ∧ p.2.Pairwise (· < ·)) : g.validate = .ok () :=
  validate_eq_ok_iff.2 h

/-! ### Multiples of a width -/

section

variable {β : Type} {first last : Int}

theorem head?_map_range (h : first ≤ last) (f : Int → β) :
    ((List.range (last + 1 - first).toNat).map fun i : Nat => f (first + i)).head? =
      some (f first) := by
  rw [List.head?_map, List.head?_range, if_neg (by omega)]
  simp

theorem getLast?_map_range (h : first ≤ last) (f : Int → β) :
    ((List.range (last + 1 - first).toNat).map fun i : Nat => f (first + i)).getLast? =
      some (f last) := by
  rw [List.getLast?_map, List.getLast?_range, if_neg (by omega), Option.map_some]
  congr 2
  omega

theorem pairwise_map_range {f : Int → β} {r : β → β → Prop}
    (h : ∀ i j, first ≤ i → i < j → j ≤ last → r (f i) (f j)) :
    ((List.range (last + 1 - first).toNat).map fun i : Nat => f (first + i)).Pairwise r := by
  rw [List.pairwise_map]
  refine List.pairwise_lt_range.imp_of_mem fun {i j} _ hj hij => ?_
  rw [List.mem_range] at hj
  exact h _ _ (by omega) (by omega) (by omega)

end

theorem length_multiples (width : α) (first last : Int) :
    (multiples width first last).length = (last + 1 - first).toNat := by
  simp [multiples]

variable [IsStrictOrderedRing α]

theorem pairwise_multiples {width : α} (hwidth : 0 < width) (first last : Int) :
    (multiples width first last).Pairwise (· < ·) :=
  pairwise_map_range fun _ _ _ hij _ => mul_lt_mul_of_pos_right (Int.cast_lt.2 hij) hwidth

theorem pairwise_snappedEdges {width : α} (hwidth : 0 < width) (lo hi : α) :
    (snappedEdges lo hi width).Pairwise (· < ·) :=
  pairwise_multiples hwidth _ _

/-- Whether the indices of the edges around a range fit into a word of 64 bits. -/
def FitsWord (width : α) (s : Span α) : Prop :=
  Int64.minValue.toInt ≤ ⌊s.lo / width⌋ ∧
    Max.max ⌈s.hi / width⌉ (⌊s.lo / width⌋ + 1) ≤ Int64.maxValue.toInt

instance (width : α) (s : Span α) : Decidable (FitsWord width s) :=
  inferInstanceAs (Decidable (_ ∧ _))

/-- Indices that fit are those of the nearest multiples, or of the next one where these are equal. -/
theorem snappedIndices_eq {width : α} (hwidth : 0 < width) {s : Span α} (h : FitsWord width s) :
    snappedIndices s.lo s.hi width =
      (⌊s.lo / width⌋, Max.max ⌈s.hi / width⌉ (⌊s.lo / width⌋ + 1)) := by
  obtain ⟨hmin, hmax⟩ := h
  set first := ⌊s.lo / width⌋
  set last := ⌈s.hi / width⌉
  obtain ⟨hclampFirst, hclampLast⟩ := clampWord_indices hmin hmax
  have hbelow : ¬ s.lo < multiple width first :=
    not_lt.2 ((le_div_iff₀ hwidth).1 (Int.floor_le _))
  have habove : ¬ multiple width (Max.max last (first + 1)) < s.hi := by
    refine not_lt.2 ((div_le_iff₀ hwidth).1 ((Int.le_ceil _).trans ?_))
    exact Int.cast_le.2 (le_max_left _ _)
  have hindices : snappedIndices s.lo s.hi width = _ :=
    snappedIndices_of_isWord hclampFirst hclampLast (fun hlt => absurd hlt hbelow)
      fun hlt => absurd hlt habove
  rwa [if_neg hbelow, if_neg habove] at hindices

theorem snappedEdges_eq {width : α} (hwidth : 0 < width) {s : Span α} (h : FitsWord width s) :
    snappedEdges s.lo s.hi width =
      multiples width ⌊s.lo / width⌋ (Max.max ⌈s.hi / width⌉ (⌊s.lo / width⌋ + 1)) := by
  unfold snappedEdges
  rw [snappedIndices_eq hwidth h]

theorem head?_snappedEdges {width : α} (hwidth : 0 < width) {s : Span α} (h : FitsWord width s) :
    (snappedEdges s.lo s.hi width).head? = some (multiple width ⌊s.lo / width⌋) := by
  rw [snappedEdges_eq hwidth h]
  exact head?_map_range (by omega) (multiple width)

theorem getLast?_snappedEdges {width : α} (hwidth : 0 < width) {s : Span α}
    (h : FitsWord width s) : (snappedEdges s.lo s.hi width).getLast? =
      some (multiple width (Max.max ⌈s.hi / width⌉ (⌊s.lo / width⌋ + 1))) := by
  rw [snappedEdges_eq hwidth h]
  exact getLast?_map_range (by omega) (multiple width)

/-- The snapped edges of a range reach around it. -/
theorem snappedEdges_around {width : α} (hwidth : 0 < width) {s : Span α} (h : FitsWord width s) :
    Edges.Around (snappedEdges s.lo s.hi width) s := by
  refine ⟨pairwise_snappedEdges hwidth _ _, ?_, ⟨_, head?_snappedEdges hwidth h, ?_⟩,
    ⟨_, getLast?_snappedEdges hwidth h, ?_⟩⟩
  · rw [snappedEdges_eq hwidth h, length_multiples]
    omega
  · exact (le_div_iff₀ hwidth).1 (Int.floor_le _)
  · refine (div_le_iff₀ hwidth).1 ((Int.le_ceil _).trans ?_)
    exact Int.cast_le.2 (le_max_left _ _)

/-- The snapped edges of a range that is not negative are not negative. -/
theorem head?_snappedEdges_nonneg {width : α} (hwidth : 0 < width) {s : Span α}
    (h : FitsWord width s) (hs : 0 ≤ s.lo) :
    ∃ a, (snappedEdges s.lo s.hi width).head? = some a ∧ 0 ≤ a := by
  refine ⟨_, head?_snappedEdges hwidth h, mul_nonneg ?_ hwidth.le⟩
  exact Int.cast_nonneg (Int.floor_nonneg.2 (div_nonneg hs hwidth.le))

/-! ### Epsilon bins -/

theorem epsilonEdges_eq (truncation : α) (bins : Nat) : epsilonEdges truncation bins =
    ((List.range (Max.max bins 1)).map fun i : Nat =>
      -truncation + 2 * truncation * (i : α) / (Max.max bins 1 : Nat)) ++ [truncation] := by
  simp [epsilonEdges]

theorem head?_epsilonEdges (truncation : α) (bins : Nat) :
    (epsilonEdges truncation bins).head? = some (-truncation) := by
  obtain ⟨n, hn⟩ : ∃ n, Max.max bins 1 = n + 1 := ⟨Max.max bins 1 - 1, by omega⟩
  rw [epsilonEdges_eq, hn, List.range_succ_eq_map]
  simp

theorem getLast?_epsilonEdges (truncation : α) (bins : Nat) :
    (epsilonEdges truncation bins).getLast? = some truncation := by
  simp [epsilonEdges_eq]

/-- The epsilon edges cut a symmetric range. -/
theorem epsilonEdges_cut {truncation : α} (h : 0 < truncation) (bins : Nat) :
    Edges.Cut (epsilonEdges truncation bins) ⟨-truncation, truncation⟩ := by
  refine ⟨?_, head?_epsilonEdges truncation bins, getLast?_epsilonEdges truncation bins⟩
  rw [epsilonEdges_eq]
  set n := Max.max bins 1 with hn
  have hposα : (0 : α) < n := Nat.cast_pos.2 (by omega)
  rw [List.pairwise_append, List.pairwise_map]
  refine ⟨List.pairwise_lt_range.imp fun {i j} hij => ?_, List.pairwise_singleton _ _, ?_⟩
  · have hlt : (i : α) < j := Nat.cast_lt.2 hij
    have hstep : 2 * truncation * i / n < 2 * truncation * j / n :=
      div_lt_div_of_pos_right (mul_lt_mul_of_pos_left hlt (by linarith)) hposα
    linarith
  · intro a ha b hb
    obtain ⟨i, hi, rfl⟩ := List.mem_map.1 ha
    rw [List.mem_singleton.1 hb]
    have hlt : (i : α) < n := Nat.cast_lt.2 (List.mem_range.1 hi)
    have hstep : 2 * truncation * i / n < 2 * truncation := by
      rw [div_lt_iff₀ hposα]
      exact mul_lt_mul_of_pos_left hlt (by linarith)
    linarith

/-- So they reach around it. -/
theorem epsilonEdges_around {truncation : α} (h : 0 < truncation) (bins : Nat) :
    Edges.Around (epsilonEdges truncation bins) ⟨-truncation, truncation⟩ :=
  (epsilonEdges_cut h bins).around (neg_lt_self h)

end

end SeismicHazard
