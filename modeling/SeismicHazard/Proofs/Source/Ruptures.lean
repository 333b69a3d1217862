import Mathlib.Algebra.Order.Field.Basic
import Mathlib.Tactic.Ring
import SeismicHazard.Proofs.Number.Span
import SeismicHazard.Source.Model

/-!
# Ruptures of sources

* `Recurrence.fst_rates`: the magnitudes of the bins follow each other by the width.
* `Source.ruptures_split`: the parts of a source have its ruptures, with the same magnitudes, rates
  and places.
* `Source.rate_pos`: no rupture of a point or an area is without a rate.
* `Source.exists_node`: a rupture of a point or an area has one node, which is not closer than the
  source.
* `SourceModel.magnitudes_spec`: the magnitudes of all ruptures.
-/

namespace SeismicHazard

section

variable {α : Type} [Field α] [LinearOrder α] [FloorRing α]

theorem foldl_min_le (xs : List α) (a : α) :
    xs.foldl Scalar.min a ≤ a ∧ ∀ x ∈ xs, xs.foldl Scalar.min a ≤ x := by
  induction xs generalizing a with
  | nil => exact ⟨le_refl a, fun x hx => absurd hx List.not_mem_nil⟩
  | cons y xs ih =>
    obtain ⟨hle, hall⟩ := ih (Scalar.min a y)
    rw [Scalar.min_eq] at hle hall
    rw [List.foldl_cons, Scalar.min_eq]
    refine ⟨hle.trans (min_le_left _ _), fun x hx => ?_⟩
    rcases List.mem_cons.1 hx with rfl | hx
    · exact hle.trans (min_le_right _ _)
    · exact hall x hx

theorem Recurrence.width_pos {r : Recurrence α} (h : r.fault? = none) : 0 < r.width := by
  by_contra hw
  cases r with
  | binned minMag w values =>
    have hfault : (binned minMag w values).fault? = some .binnedRates := if_pos (Or.inl hw)
    rw [h] at hfault
    cases hfault
  | truncated a b lo hi w =>
    have hfault : (truncated a b lo hi w).fault? = some (.truncatedRange lo hi w) :=
      if_pos (Or.inl hw)
    rw [h] at hfault
    cases hfault

theorem AreaSource.share_pos [IsStrictOrderedRing α] (s : AreaSource α) : 0 < s.share := by
  unfold share
  rw [Scalar.ofNat_eq]
  exact div_pos one_pos (Nat.cast_pos.2 (by simp [nodes]))

variable [Elementary α]

/-! ### Magnitudes -/

theorem Recurrence.magnitudes_eq {r : Recurrence α} (hne : r.rates ≠ []) :
    r.magnitudes = ⟨(r.rates.head hne).1, (r.rates.getLast hne).1⟩ := by
  unfold magnitudes
  rw [List.head?_eq_some_head hne, List.getLast?_eq_some_getLast hne]

/-- The magnitude of a bin: as many widths above the first one as there are bins before it. -/
theorem Recurrence.fst_rates {r : Recurrence α} {i : Nat} {p : α × α} (h : r.rates[i]? = some p) :
    p.1 = r.magnitudes.lo + i * r.width := by
  obtain ⟨hi, hp⟩ := List.getElem?_eq_some_iff.1 h
  have hne : r.rates ≠ [] := List.ne_nil_of_length_pos (by omega)
  rw [magnitudes_eq hne, ← hp]
  simp only [List.head_eq_getElem]
  cases r with
  | binned minMag w values =>
    simp [rates, width]
  | truncated a b lo hi w =>
    simp only [rates, width, List.getElem_map, List.getElem_range, Scalar.ofNat_eq]
    push_cast
    ring

/-- The bins of a place have the magnitudes of the area and its share of the rates. -/
theorem AreaSource.rates_partRecurrence (s : AreaSource α) : s.partRecurrence.rates =
    s.recurrence.rates.map fun p => (p.1, p.2 * s.share) := by
  have hrates : s.partRecurrence.rates = (s.recurrence.rates.map fun p => p.2 * s.share).mapIdx
      fun i r => (s.recurrence.magnitudes.lo + Scalar.ofNat i * s.recurrence.width, r) := rfl
  rw [hrates]
  apply List.ext_getElem?
  intro i
  rw [List.getElem?_mapIdx, List.getElem?_map, List.getElem?_map]
  cases hi : s.recurrence.rates[i]? with
  | none => rfl
  | some p =>
    rw [Option.map_some, Option.map_some, Option.map_some, Scalar.ofNat_eq,
      ← Recurrence.fst_rates hi]

/-! ### Points and areas -/

/-- Whether a source is a point or an area. -/
def Source.IsNodal : Source α → Prop
  | .listed _ => False
  | _ => True

/-- The places of the ruptures of a point or an area. -/
def Source.nodes : Source α → List (Point α)
  | .point s => [s.hypocenter]
  | .area s => s.nodes
  | .listed _ => []

/-- Whether a source is one that can be made: the recurrence of a point or an area makes sense. -/
def Source.IsMade : Source α → Prop
  | .point s => s.recurrence.fault? = none
  | .area s => s.recurrence.fault? = none
  | .listed _ => True

theorem AreaSource.minDistance_le (s : AreaSource α) {node : Point α} (h : node ∈ s.nodes)
    (place : Point α) : s.minDistance place ≤ node.distance place := by
  obtain ⟨hfirst, hothers⟩ :=
    foldl_min_le (s.otherNodes.map (·.distance place)) (s.firstNode.distance place)
  rcases List.mem_cons.1 h with rfl | h
  · exact hfirst
  · exact hothers _ (List.mem_map_of_mem h)

/-- A rupture of a point or an area has one of its places, none of which is closer to another place
than the source is. -/
theorem Source.exists_node {s : Source α} (hs : s.IsNodal) {r : Rupture α} (hr : r ∈ s.ruptures) :
    ∃ node ∈ s.nodes, r.surface = [node] ∧
      ∀ place, s.minDistance place ≤ node.distance place := by
  cases s with
  | point s =>
    obtain ⟨p, -, rfl⟩ := List.mem_map.1 hr
    exact ⟨s.hypocenter, List.mem_singleton_self _, rfl, fun place => le_refl _⟩
  | listed s => exact hs.elim
  | area s =>
    obtain ⟨node, hnode, hr⟩ := List.mem_flatMap.1 hr
    obtain ⟨p, -, rfl⟩ := List.mem_map.1 hr
    exact ⟨node, hnode, rfl, fun place => s.minDistance_le hnode place⟩

/-- An area is split by place, or not at all. -/
theorem AreaSource.split_eq (s : AreaSource α) : s.split = [.area s] ∨
    s.split = s.nodes.mapIdx fun i node =>
      .point ⟨s.id ++ ":" ++ i.repr, s.region, node, s.partRecurrence⟩ := by
  unfold split
  split
  · exact Or.inl rfl
  · exact Or.inr rfl

/-- The parts of a source are what it is itself: a point or an area, of its region. -/
theorem Source.of_mem_split {s part : Source α} (h : part ∈ s.split) :
    part.region = s.region ∧ (s.IsNodal → part.IsNodal) := by
  cases s with
  | point s =>
    rw [List.mem_singleton.1 h]
    exact ⟨rfl, fun hs => hs⟩
  | listed s =>
    rw [List.mem_singleton.1 h]
    exact ⟨rfl, fun hs => hs⟩
  | area s =>
    have h : part ∈ s.split := h
    rcases s.split_eq with hsplit | hsplit
    · rw [hsplit] at h
      rw [List.mem_singleton.1 h]
      exact ⟨rfl, fun hs => hs⟩
    · rw [hsplit] at h
      obtain ⟨i, hi, rfl⟩ := List.mem_mapIdx.1 h
      exact ⟨rfl, fun _ => trivial⟩

variable [IsStrictOrderedRing α]

/-- The magnitudes of the bins lie between those of the first and the last one. -/
theorem Recurrence.mem_magnitudes {r : Recurrence α} (hwidth : 0 < r.width) {p : α × α}
    (hp : p ∈ r.rates) : r.magnitudes.lo ≤ p.1 ∧ p.1 ≤ r.magnitudes.hi := by
  obtain ⟨i, hi⟩ := List.mem_iff_getElem?.1 hp
  have hne : r.rates ≠ [] := List.ne_nil_of_mem hp
  have hlast : r.rates[r.rates.length - 1]? = some (r.rates.getLast hne) := by
    rw [← List.getLast?_eq_getElem?, List.getLast?_eq_some_getLast hne]
  have hhi : r.magnitudes.hi = (r.rates.getLast hne).1 := by rw [magnitudes_eq hne]
  have hindex : i ≤ r.rates.length - 1 := by
    have := (List.getElem?_eq_some_iff.1 hi).1
    omega
  rw [hhi, fst_rates hi, fst_rates hlast]
  constructor
  · have : 0 ≤ (i : α) * r.width := mul_nonneg (Nat.cast_nonneg i) hwidth.le
    linarith
  · have : (i : α) * r.width ≤ (r.rates.length - 1 : Nat) * r.width :=
      mul_le_mul_of_nonneg_right (Nat.cast_le.2 hindex) hwidth.le
    linarith

/-! ### Parts -/

theorem AreaSource.positiveRates_partRecurrence (s : AreaSource α) :
    s.partRecurrence.positiveRates =
      s.recurrence.positiveRates.map fun p => (p.1, p.2 * s.share) := by
  rw [Recurrence.positiveRates, rates_partRecurrence, List.filter_map, Recurrence.positiveRates]
  congr 1
  refine List.filter_congr fun p _ => ?_
  simp [mul_pos_iff_of_pos_right s.share_pos]

/-- The ruptures of a point or an area have a rate greater than zero. -/
theorem Source.rate_pos {s : Source α} (hs : s.IsNodal) {r : Rupture α} (hr : r ∈ s.ruptures) :
    0 < r.rate := by
  cases s with
  | point s =>
    obtain ⟨p, hp, rfl⟩ := List.mem_map.1 hr
    exact of_decide_eq_true (List.mem_filter.1 hp).2
  | listed s => exact hs.elim
  | area s =>
    obtain ⟨node, -, hr⟩ := List.mem_flatMap.1 hr
    obtain ⟨p, hp, rfl⟩ := List.mem_map.1 hr
    exact mul_pos (of_decide_eq_true (List.mem_filter.1 hp).2) s.share_pos

/-- The parts of a source have its ruptures, in its order. -/
theorem Source.ruptures_split (s : Source α) : s.split.flatMap (·.ruptures) = s.ruptures := by
  cases s with
  | point s => exact List.flatMap_singleton _ _
  | listed s => exact List.flatMap_singleton _ _
  | area s =>
    have harea : (Source.area s).split = s.split := rfl
    rw [harea]
    rcases s.split_eq with h | h
    · rw [h]
      exact List.flatMap_singleton _ _
    · have hmap : s.split.map (·.ruptures) = s.nodes.map fun node =>
          s.recurrence.positiveRates.map fun p => ⟨p.1, p.2 * s.share, [node]⟩ := by
        rw [h]
        apply List.ext_getElem
        · simp
        · intro i _ _
          simp [ruptures, PointSource.ruptures, AreaSource.positiveRates_partRecurrence,
            Function.comp_def]
      rw [List.flatMap_def, hmap, ← List.flatMap_def]
      rfl

/-! ### The magnitudes of all sources -/

/-- The magnitudes of the ruptures of a source lie within its range. -/
theorem Source.mem_magnitudes {s : Source α} (hs : s.IsNodal) (hmade : s.IsMade) {r : Rupture α}
    (hr : r ∈ s.ruptures) : s.magnitudes.lo ≤ r.magnitude ∧ r.magnitude ≤ s.magnitudes.hi := by
  cases s with
  | point s =>
    obtain ⟨p, hp, rfl⟩ := List.mem_map.1 hr
    exact Recurrence.mem_magnitudes (Recurrence.width_pos hmade) (List.mem_of_mem_filter hp)
  | listed s => exact hs.elim
  | area s =>
    obtain ⟨node, -, hr⟩ := List.mem_flatMap.1 hr
    obtain ⟨p, hp, rfl⟩ := List.mem_map.1 hr
    exact Recurrence.mem_magnitudes (Recurrence.width_pos hmade) (List.mem_of_mem_filter hp)

end

/-- The range of the magnitudes of all models reaches around that of each source. -/
theorem SourceModel.magnitudes_spec {α : Type} [Field α] [LinearOrder α] [FloorRing α]
    [Elementary α] {models : List (SourceModel α)} {span : Span α}
    (h : SourceModel.magnitudes models = some span) {m : SourceModel α} (hm : m ∈ models)
    {g : SourceGroup α} (hg : g ∈ m.groups) {s : Source α} (hs : s ∈ g.sources) :
    span.lo ≤ s.magnitudes.lo ∧ s.magnitudes.hi ≤ span.hi := by
  have hmem : s.magnitudes ∈ g.sources.map (·.magnitudes) := List.mem_map_of_mem hs
  cases hgroup : g.magnitudes with
  | none =>
    unfold SourceGroup.magnitudes at hgroup
    cases hlist : g.sources.map (·.magnitudes) with
    | nil => exact absurd hmem (by rw [hlist]; exact List.not_mem_nil)
    | cons first rest =>
      rw [hlist] at hgroup
      cases hgroup
  | some t =>
    have hinner := Span.unionAll_spec hgroup _ hmem
    have houter := Span.unionAll_spec h t
      (List.mem_flatMap.2 ⟨m, hm, List.mem_filterMap.2 ⟨g, hg, hgroup⟩⟩)
    exact ⟨houter.1.trans hinner.1, hinner.2.trans houter.2⟩

/-- A rupture with one node is reached there. -/
theorem Rupture.nearest_of_surface {α : Type} [Elementary α] [TotalOrder α] {r : Rupture α}
    {node : Point α} (h : r.surface = [node]) (place : Point α) :
    r.nearest place = some (node.distance place, node) := by
  rw [nearest, h]
  rfl

end SeismicHazard
