import Mathlib
import SeismicHazard.Proofs.Source.Recurrence

/-!
# Parts of an area

An area without a negative rate is split into points, one for each of its places. Their recurrences give
the rates of the area by bin, from its first magnitude on, and a share of each. What is asked of the
parts together has the same answer as for the area.

* `AreaSource.split_of_nonneg`, `AreaSource.split_of_neg`: when an area is split, and into what.
* `AreaSource.sum_numRuptures_split`: the numbers of ruptures of the parts.
* `AreaSource.min?_minDistance_split`: the distances of the parts.
* `AreaSource.parts_make_area`: the parts of an area that can be made.
-/

namespace SeismicHazard.AreaSource

section

variable {α : Type} [Field α] [LinearOrder α] [FloorRing α] {id region : String}
  {nodes : List (Point α)} {r : Recurrence α} {s : AreaSource α}

/-- An area has the places and the recurrence that it is made of. -/
theorem make_eq_ok : make id region nodes r = .ok s ↔
    s.id = id ∧ s.region = region ∧ s.nodes = nodes ∧ s.recurrence = r ∧ r.fault? = none := by
  obtain ⟨id', region', first, others, r'⟩ := s
  unfold make
  cases nodes with
  | nil => simp [AreaSource.nodes]
  | cons node rest =>
    cases hfault : r.fault? with
    | some fault => simp
    | none => simp [AreaSource.nodes, eq_comm, and_assoc]

variable [Elementary α]

/-- The distance of an area is the least of those of its places. -/
theorem min?_distance (s : AreaSource α) (place : Point α) :
    (s.nodes.map (·.distance place)).min? = some (s.minDistance place) := by
  have hmin : (Scalar.min : α → α → α) = Min.min := funext₂ Scalar.min_eq
  rw [minDistance, hmin]
  rfl

theorem numBins_partRecurrence (s : AreaSource α) :
    s.partRecurrence.numBins = s.recurrence.numBins := by
  rw [← Recurrence.length_rates, rates_partRecurrence, List.length_map, Recurrence.length_rates]

variable [IsStrictOrderedRing α]

/-- The rates of a place make sense if the area has no negative rate. -/
theorem fault?_partRecurrence_eq_none_iff (hs : s.recurrence.fault? = none) :
    s.partRecurrence.fault? = none ↔ ∀ p ∈ s.recurrence.rates, 0 ≤ p.2 := by
  have hne : (s.recurrence.rates.map fun p => p.2 * s.share) ≠ [] := by
    simpa using Recurrence.rates_ne_nil hs
  rw [partRecurrence, Recurrence.fault?_binned_eq_none_iff, List.forall_mem_map]
  simp only [Recurrence.width_pos hs, ne_eq, hne, not_false_eq_true, true_and,
    mul_nonneg_iff_of_pos_right s.share_pos]

/-- An area without a negative rate has a point at each of its places. -/
theorem split_of_nonneg (hs : s.recurrence.fault? = none)
    (hrates : ∀ p ∈ s.recurrence.rates, 0 ≤ p.2) : s.split = s.nodes.mapIdx fun i node =>
      .point ⟨s.id ++ ":" ++ i.repr, s.region, node, s.partRecurrence⟩ := by
  rw [split, (fault?_partRecurrence_eq_none_iff hs).2 hrates]

/-- An area with a negative rate is not split. -/
theorem split_of_neg (hs : s.recurrence.fault? = none)
    (hrates : ¬ ∀ p ∈ s.recurrence.rates, 0 ≤ p.2) : s.split = [.area s] := by
  obtain ⟨fault, hfault⟩ := Option.ne_none_iff_exists'.1
    (mt (fault?_partRecurrence_eq_none_iff hs).1 hrates)
  rw [split, hfault]

/-- What is said of a point by its place alone is said of the places of the area. -/
theorem map_split_of_nonneg {β : Type} (hs : s.recurrence.fault? = none)
    (hrates : ∀ p ∈ s.recurrence.rates, 0 ≤ p.2) {f : Source α → β} {g : Point α → β}
    (hf : ∀ name node, f (.point ⟨name, s.region, node, s.partRecurrence⟩) = g node) :
    s.split.map f = s.nodes.map g := by
  rw [split_of_nonneg hs hrates]
  apply List.ext_getElem
  · simp
  · intro i _ _
    simp [hf]

/-- The parts of an area have as many ruptures as the area. -/
theorem sum_numRuptures_split (hs : s.recurrence.fault? = none) :
    (s.split.map (·.numRuptures)).sum = (Source.area s).numRuptures := by
  by_cases hrates : ∀ p ∈ s.recurrence.rates, 0 ≤ p.2
  · have hbins : ∀ name node, Source.numRuptures (.point ⟨name, s.region, node, s.partRecurrence⟩) =
        s.recurrence.numBins := fun _ _ => s.numBins_partRecurrence
    rw [map_split_of_nonneg hs hrates hbins, List.map_const', List.sum_replicate_nat]
    rfl
  · rw [split_of_neg hs hrates]
    exact Nat.add_zero _

/-- The part closest to a place is as close as the area. -/
theorem min?_minDistance_split (hs : s.recurrence.fault? = none) (place : Point α) :
    (s.split.map (·.minDistance place)).min? = some (s.minDistance place) := by
  by_cases hrates : ∀ p ∈ s.recurrence.rates, 0 ≤ p.2
  · have hdistance : ∀ name node, Source.minDistance
        (.point ⟨name, s.region, node, s.partRecurrence⟩) place = node.distance place :=
      fun _ _ => rfl
    rw [map_split_of_nonneg hs hrates hdistance, min?_distance]
  · rw [split_of_neg hs hrates]
    rfl

/-- The parts of an area whose recurrence makes sense have recurrences that do. -/
theorem isMade_of_mem_split (hs : s.recurrence.fault? = none) {part : Source α}
    (hpart : part ∈ s.split) : part.IsMade := by
  by_cases hrates : ∀ p ∈ s.recurrence.rates, 0 ≤ p.2
  · rw [split_of_nonneg hs hrates] at hpart
    obtain ⟨i, hi, rfl⟩ := List.mem_mapIdx.1 hpart
    exact (fault?_partRecurrence_eq_none_iff hs).2 hrates
  · rw [split_of_neg hs hrates] at hpart
    rw [List.mem_singleton.1 hpart]
    exact hs

/-- The parts of an area that can be made are sources of its region that can be made as well. One after
the other they have the ruptures of the area; together they have its number of ruptures, and the closest
part is as close to a place as the area. Unless a rate is negative they are points, one for each place in
order; else the area is its own part. -/
theorem parts_make_area (h : make id region nodes r = .ok s) :
    s.split.flatMap (·.ruptures) = s.ruptures ∧
    (∀ part ∈ s.split, part.region = region ∧ part.IsMade) ∧
    (s.split.map (·.numRuptures)).sum = (Source.area s).numRuptures ∧
    (∀ place, (s.split.map (·.minDistance place)).min? = some (s.minDistance place)) ∧
    ((∀ p ∈ r.rates, 0 ≤ p.2) →
      s.split.map (·.isPoint) = nodes.map (fun _ => true) ∧ s.split.map (·.nodes) = nodes.map ([·])) ∧
    ((∃ p ∈ r.rates, p.2 < 0) → s.split = [.area s]) := by
  obtain ⟨-, rfl, rfl, rfl, hs⟩ := make_eq_ok.1 h
  refine ⟨Source.ruptures_split (.area s), fun part hpart => ?_, sum_numRuptures_split hs,
    min?_minDistance_split hs, fun hrates => ⟨?_, ?_⟩, fun hrates => split_of_neg hs ?_⟩
  · exact ⟨(Source.of_mem_split (s := .area s) hpart).1, isMade_of_mem_split hs hpart⟩
  · exact map_split_of_nonneg hs hrates fun _ _ => rfl
  · exact map_split_of_nonneg hs hrates fun _ _ => rfl
  · simpa using hrates

end

/-! ### Two places -/

open RealFunctions Recurrence

/-- Two places that share the rates of a law with two bins. -/
theorem parts_make_area_law : ∃ s : AreaSource ℝ,
    make "area" "A" [⟨0, 0, 10⟩, ⟨1, 0, 10⟩] (.truncated 3 1 5 6 (1 / 2)) = .ok s ∧
    s.split.flatMap (·.ruptures) = s.ruptures ∧ s.split.map (·.isPoint) = [true, true] ∧
    (s.split.map (·.numRuptures)).sum = 4 ∧
    ∀ place, (s.split.map (·.minDistance place)).min? = some (s.minDistance place) := by
  have hfault : (truncated 3 1 5 6 (1 / 2) : Recurrence ℝ).fault? = none :=
    fault?_truncated_eq_none_iff.2 (by norm_num)
  have hbins : (truncated 3 1 5 6 (1 / 2) : Recurrence ℝ).numBins = 2 := by
    refine numBins_truncated_eq ?_ ?_ 3 1 (by decide) (.inr ?_) ?_ <;> norm_num
  have hmake : make "area" "A" [⟨0, 0, 10⟩, ⟨1, 0, 10⟩] (.truncated 3 1 5 6 (1 / 2)) =
      .ok (⟨"area", "A", ⟨0, 0, 10⟩, [⟨1, 0, 10⟩], .truncated 3 1 5 6 (1 / 2)⟩ : AreaSource ℝ) :=
    make_eq_ok.2 ⟨rfl, rfl, rfl, rfl, hfault⟩
  obtain ⟨hruptures, -, hnumber, hdistance, hpoints, -⟩ := parts_make_area hmake
  refine ⟨_, hmake, hruptures, ?_, ?_, hdistance⟩
  · exact (hpoints fun p hp => rates_truncated_nonneg powTen_strictMono.monotone zero_le_one
      (by norm_num) hp).1
  · rw [hnumber, Source.numRuptures, hbins]
    rfl

end SeismicHazard.AreaSource
