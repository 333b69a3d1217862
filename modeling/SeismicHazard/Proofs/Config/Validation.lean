import Mathlib.Algebra.Order.Field.Basic
import Mathlib.Data.List.Nodup
import SeismicHazard.Config.Validation
import SeismicHazard.Proofs.Number.Exact

/-!
# The numbers of an allowed configuration

A width that passes the rules is positive, and so is the default of one that is not set.

* `Config.pos_of_validate`: settings that must be positive are.
* `Config.magWidth_pos` and the like: the values that are used.
* `Config.nodup_measures`, `Config.nodup_thresholds`: what is asked for once is listed once.
* `Config.nodup_marginals_iff`: so are views, and only then.
* `Config.mem_levels_of_mem_measures`, `Config.exists_threshold`: if a level is given, every measure has
  one, and otherwise there are thresholds.
-/

namespace SeismicHazard

/-- Known names are those of the views that they name. -/
theorem Marginal.map_name_filterMap {names : List String}
    (h : ∀ name ∈ names, (ofName? name).isSome) : (names.filterMap ofName?).map name = names := by
  induction names with
  | nil => rfl
  | cons text names ih =>
    rw [List.forall_mem_cons] at h
    obtain ⟨m, hm⟩ := Option.isSome_iff_exists.1 h.1
    have hname : m.name = text := by simpa using List.find?_some hm
    rw [List.filterMap_cons_some hm, List.map_cons, hname, ih h.2]

namespace Config

section

variable {α : Type} {c : Config α}

theorem nodup_measures (h : c.request.imts.Nodup) : c.measures.Nodup := by
  unfold measures
  split
  · exact Std.TreeMap.nodup_keys
  · exact h

theorem mem_thresholds {p : α} (h : p ∈ c.request.poes) : some p ∈ c.thresholds := by
  unfold thresholds
  split
  · next hnil =>
    rw [hnil] at h
    cases h
  · exact List.mem_map_of_mem h

theorem nodup_thresholds (h : c.request.poes.Nodup) : c.thresholds.Nodup := by
  unfold thresholds
  split
  · exact List.pairwise_singleton _ none
  · exact h.map (Option.some_injective α)

theorem measures_ne_nil (h : c.validateRequest = .ok ()) : c.measures ≠ [] := by
  intro hnil
  rw [validateRequest, if_pos hnil] at h
  split at h
  · cases h
  · cases h

theorem thresholds_ne_nil : c.thresholds ≠ [] := by
  unfold thresholds
  split
  · exact List.cons_ne_nil none []
  · next hne => exact mt List.map_eq_nil_iff.1 hne

/-- Without levels, every target has a threshold that is asked for. -/
theorem exists_threshold (h : c.validateRequest = .ok ()) (hlevels : c.request.levels.isEmpty)
    {poe : Option α} (hpoe : poe ∈ c.thresholds) : ∃ p ∈ c.request.poes, poe = some p := by
  have hpoes : c.request.poes ≠ [] := by
    intro hnil
    rw [validateRequest, if_pos ⟨hnil, by simp [hasLevels, hlevels]⟩] at h
    cases h
  unfold thresholds at hpoe
  split at hpoe
  · next hnil => exact absurd hnil hpoes
  · obtain ⟨p, hp, rfl⟩ := List.mem_map.1 hpoe
    exact ⟨p, hp, rfl⟩

end

section

variable {α : Type} [Scalar α] {c : Config α}

theorem violation?_of_validate (h : c.validate = .ok ()) : c.violation? = none := by
  unfold validate at h
  split at h
  · cases h
  · next hnone => exact hnone

/-- A setting that must be positive and is made is positive in an allowed configuration. -/
theorem isPositive_of_validate (h : c.validate = .ok ()) {setting : String} {x : α}
    (hx : (setting, some x) ∈ c.positiveSettings) : Scalar.isPositive x := by
  have hviolation := violation?_of_validate h
  have hpositive : c.positiveViolation? = none := by
    unfold violation? at hviolation
    exact (Option.or_eq_none_iff.1 hviolation).1
  have hfound := List.findSome?_eq_none_iff.1 hpositive _ hx
  by_contra hrefused
  simp [hrefused] at hfound

theorem isFinite_pointFactor (h : c.validate = .ok ()) {x : α} (hx : x ∈ c.execution.pointFactor) :
    Scalar.isFinite x := by
  have hviolation := violation?_of_validate h
  simp only [violation?, Option.or_eq_none_iff] at hviolation
  have hweight := hviolation.2.2.1
  rw [weightViolation?, Option.mem_def.1 hx] at hweight
  by_contra hne
  simp [hne] at hweight

/-- A threshold of an allowed configuration is a probability other than zero. -/
theorem pos_and_le_one_of_mem (h : c.validate = .ok ()) {p : α} (hp : p ∈ c.request.poes) :
    0 < p ∧ p ≤ 1 := by
  have hviolation := violation?_of_validate h
  simp only [violation?, Option.or_eq_none_iff] at hviolation
  have hthreshold := hviolation.2.2.2.1
  have hall : c.request.poes.all fun p => decide (0 < p) && decide (p ≤ 1) := by
    by_contra hne
    rw [thresholdViolation?, if_neg hne] at hthreshold
    cases hthreshold
  simpa using List.all_eq_true.1 hall p hp

theorem isPositive_level (h : c.validate = .ok ()) {level : String × α}
    (hlevel : level ∈ c.request.levels.toList) : Scalar.isPositive level.2 := by
  have hviolation := violation?_of_validate h
  simp only [violation?, Option.or_eq_none_iff] at hviolation
  have hlevels := hviolation.2.2.2.2.1
  rw [levelsViolation?, Option.or_eq_none_iff] at hlevels
  have hnone := List.findSome?_eq_none_iff.1 hlevels.1 level hlevel
  by_contra hne
  rw [Bool.not_eq_true] at hne
  simp [levelViolation?, hne] at hnone

/-- If levels are given, then one is given for each measure. -/
theorem mem_levels_of_mem_measures (h : c.validate = .ok ()) (hlevels : ¬ c.request.levels.isEmpty)
    {imt : String} (himt : imt ∈ c.measures) : imt ∈ c.request.levels := by
  unfold measures at himt
  split at himt
  · exact Std.TreeMap.mem_keys.1 himt
  · have hviolation := violation?_of_validate h
    simp only [violation?, Option.or_eq_none_iff] at hviolation
    have hnone := hviolation.2.2.2.2.1
    have hsome : c.hasLevels = true := by simp [hasLevels, hlevels]
    rw [levelsViolation?, Option.or_eq_none_iff, if_pos hsome, Option.map_eq_none_iff,
      List.find?_eq_none] at hnone
    simpa using hnone.2 imt himt

/-- The views of an allowed configuration are known by their names. -/
theorem isSome_ofName?_of_validate (h : c.validate = .ok ()) {name : String}
    (hname : name ∈ c.execution.views) : (Marginal.ofName? name).isSome := by
  have hviolation := violation?_of_validate h
  simp only [violation?, Option.or_eq_none_iff] at hviolation
  have hviews := hviolation.2.2.2.2.2
  rw [viewViolation?, Option.map_eq_none_iff, List.find?_eq_none] at hviews
  simpa [Option.isSome_iff_ne_none] using hviews name hname

/-- The views are those that are named, in that order, or all of them. -/
theorem map_name_marginals (h : c.validate = .ok ()) : c.marginals.map Marginal.name =
    if c.execution.views = [] then Marginal.all.map Marginal.name else c.execution.views := by
  have hknown : ∀ name ∈ c.execution.views, (Marginal.ofName? name).isSome := fun _ hname =>
    isSome_ofName?_of_validate h hname
  unfold marginals
  split
  · next hnil => rw [if_pos hnil]
  · next hne =>
    rw [if_neg hne]
    exact Marginal.map_name_filterMap hknown

/-- A view is there as often as it is named. -/
theorem nodup_marginals_iff (h : c.validate = .ok ()) :
    (c.marginals.map Marginal.name).Nodup ↔ c.execution.views.Nodup := by
  rw [map_name_marginals h]
  split
  · next hnil =>
    rw [hnil]
    simp [Marginal.all, Marginal.name]
  · rfl

end

section

variable {α : Type} [Field α] [LinearOrder α] [FloorRing α] {c : Config α}

theorem pos_of_validate (h : c.validate = .ok ()) {setting : String} {x : α}
    (hx : (setting, some x) ∈ c.positiveSettings) : 0 < x :=
  Scalar.isPositive_iff.1 (isPositive_of_validate h hx)

theorem getD_pos {value : Option α} {default : α} (hdefault : 0 < default)
    (h : ∀ x, value = some x → 0 < x) : 0 < value.getD default := by
  cases value with
  | none => exact hdefault
  | some x => exact h x rfl

variable [IsStrictOrderedRing α]

theorem magWidth_pos (h : c.validate = .ok ()) : 0 < c.magWidth := by
  refine getD_pos (by simp [Scalar.ratio]) fun x hx => ?_
  exact @pos_of_validate _ _ _ _ _ h "binning.mag_bin_width" x (by simp [positiveSettings, hx])

theorem distanceWidth_pos (h : c.validate = .ok ()) : 0 < c.distanceWidth := by
  refine getD_pos (by simp) fun x hx => ?_
  exact @pos_of_validate _ _ _ _ _ h "binning.distance_bin_width" x (by simp [positiveSettings, hx])

theorem coordinateWidth_pos (h : c.validate = .ok ()) : 0 < c.coordinateWidth := by
  refine getD_pos (by simp [Scalar.ratio]) fun x hx => ?_
  exact @pos_of_validate _ _ _ _ _ h "binning.coordinate_bin_width" x
    (by simp [positiveSettings, hx])

theorem time_pos (h : c.validate = .ok ()) : 0 < c.time := by
  refine getD_pos (by simp) fun x hx => ?_
  exact @pos_of_validate _ _ _ _ _ h "calculation.investigation_time" x
    (by simp [positiveSettings, hx])

theorem truncation_pos (h : c.validate = .ok ()) : 0 < c.truncation := by
  refine getD_pos (by simp) fun x hx => ?_
  exact @pos_of_validate _ _ _ _ _ h "calculation.truncation_level" x
    (by simp [positiveSettings, hx])

end

end Config

end SeismicHazard
