import Mathlib.Algebra.BigOperators.Group.Multiset.Basic
import SeismicHazard.Proofs.Task.Contributions

/-!
# What does not depend on the targets

Which ruptures count for which sites does not depend on what is asked about them. Each of these
encounters contributes to a result once for every target that the result is about.

* `Setting.encounters`: the ruptures of a source at the sites that they count for.
* `WorkGroup.sightings_eq_map`: sightings are encounters with the levels of the targets.
* `WorkGroup.contributions_eq_bind`: what a source contributes, target by target.
* `WorkGroup.feasible_iff`: when the work on a source succeeds, target by target.
-/

namespace SeismicHazard

/-- A rupture that counts for a site. -/
structure Encounter (α : Type) where
  rupture : Rupture α
  site : Site α
  scenario : Scenario α

/-- The encounter as a sighting by a work group with the given levels at the site. -/
def Encounter.sighting {α : Type} (e : Encounter α) (levels : List (Option α)) (region : Nat) :
    Sighting α :=
  ⟨e.rupture, e.site, e.scenario, levels, region⟩

section

variable {α : Type} [Field α] [LinearOrder α] [FloorRing α] [Elementary α]

/-- The encounters of a source, rupture by rupture. -/
def Setting.encounters (st : Setting α) (s : Source α) : List (Encounter α) :=
  s.ruptures.flatMap fun r => (st.sitesOf s).filterMap fun site =>
    (Scenario.ofRupture? r site).map fun scenario => ⟨r, site, scenario⟩

namespace WorkGroup

/-- Every site has the levels of the targets there. -/
def HasLevels (w : WorkGroup α) (st : Setting α) (level? : Nat → Target α → Option α) : Prop :=
  ∀ site ∈ st.sites.toList, w.levels[site.id]? = some (w.targets.map (level? site.id))

variable {w : WorkGroup α} {st : Setting α} {level? : Nat → Target α → Option α}

theorem sightings_eq_map (h : w.HasLevels st level?) (s : Source α) :
    w.sightings st s = (st.encounters s).map fun e =>
      e.sighting (w.targets.map (level? e.site.id)) (st.regionOf s) := by
  unfold sightings Setting.encounters
  rw [List.map_flatMap]
  refine List.flatMap_congr fun r _ => ?_
  rw [List.map_filterMap]
  refine List.filterMap_congr fun site hsite => ?_
  have hlevels := h site (List.mem_of_mem_filter (List.mem_of_mem_filter hsite))
  unfold sighting?
  rw [hlevels]
  cases Scenario.ofRupture? r site <;> rfl

/-- What an encounter contributes to a result because of a target. -/
def contributionAt (w : WorkGroup α) (st : Setting α) (level? : Nat → Target α → Option α)
    (region : Nat) (e : Encounter α) (k : ResultKey α) (t : Target α) : Multiset (Contribution α) :=
  if st.key? e.site.id (t, level? e.site.id t) = some k then
    {w.contribution st (e.sighting [] region) (t, level? e.site.id t)}
  else 0

theorem contributionsTo_eq_bind (v : Sighting α) (f : Target α → Option α)
    (targets : List (Target α)) (k : ResultKey α) :
    w.contributionsTo st v (targets.map fun t => (t, f t)) k =
      (targets : Multiset (Target α)).bind fun t =>
        if st.key? v.site.id (t, f t) = some k then {w.contribution st v (t, f t)} else 0 := by
  induction targets with
  | nil => rfl
  | cons t targets ih =>
    rw [List.map_cons, contributionsTo_cons, ih, ← Multiset.cons_coe, Multiset.cons_bind]

/-- A source contributes target by target. -/
theorem contributions_eq_bind (h : w.HasLevels st level?) (s : Source α) (k : ResultKey α) :
    w.contributions st s k = (st.encounters s : Multiset (Encounter α)).bind fun e =>
      (w.targets : Multiset (Target α)).bind (w.contributionAt st level? (st.regionOf s) e k) := by
  unfold contributions
  rw [sightings_eq_map h, ← Multiset.map_coe, Multiset.bind_map]
  refine Multiset.bind_congr fun e _ => ?_
  have hlevels : (e.sighting (w.targets.map (level? e.site.id)) (st.regionOf s)).levels =
      w.targets.map (level? e.site.id) := rfl
  rw [contributionsOf, hlevels, leveled_map, contributionsTo_eq_bind]
  rfl

/-- The work on a source succeeds target by target. -/
theorem feasible_iff (h : w.HasLevels st level?) {s : Source α} : w.Feasible st s ↔
    (st.regionIndex? s.region).isSome ∧ ∀ e ∈ st.encounters s, ∀ t ∈ w.targets,
      (w.pnes? st e.rupture e.scenario (t, level? e.site.id t)).isSome ∧
      ((level? e.site.id t).isSome → ∀ g, st.grids[e.site.id]? = some g →
        ∃ at_, g.place? st.regions.length (e.sighting [] (st.regionOf s)).seen = some at_) := by
  have hleveled : ∀ e : Encounter α, ∀ tl, tl ∈ w.leveled
      (e.sighting (w.targets.map (level? e.site.id)) (st.regionOf s)).levels ↔
        ∃ t ∈ w.targets, tl = (t, level? e.site.id t) := by
    intro e tl
    have hlevels : (e.sighting (w.targets.map (level? e.site.id)) (st.regionOf s)).levels =
        w.targets.map (level? e.site.id) := rfl
    rw [hlevels, leveled_map, List.mem_map]
    exact exists_congr fun t => and_congr_right fun _ => eq_comm
  constructor
  · intro hw
    refine ⟨hw.region, fun e he t ht => ?_⟩
    have hv : e.sighting (w.targets.map (level? e.site.id)) (st.regionOf s) ∈ w.sightings st s := by
      rw [sightings_eq_map h]
      exact List.mem_map_of_mem he
    have htl := (hleveled e (t, level? e.site.id t)).2 ⟨t, ht, rfl⟩
    exact ⟨hw.answered _ hv _ htl, hw.placed _ hv _ htl⟩
  · rintro ⟨hregion, hall⟩
    refine ⟨hregion, fun v hv => ?_, fun v hv => ?_⟩
    · rw [sightings_eq_map h] at hv
      obtain ⟨e, he, rfl⟩ := List.mem_map.1 hv
      intro tl htl
      obtain ⟨t, ht, rfl⟩ := (hleveled e tl).1 htl
      exact (hall e he t ht).1
    · rw [sightings_eq_map h] at hv
      obtain ⟨e, he, rfl⟩ := List.mem_map.1 hv
      intro tl htl
      obtain ⟨t, ht, rfl⟩ := (hleveled e tl).1 htl
      exact (hall e he t ht).2

end WorkGroup

end

end SeismicHazard
