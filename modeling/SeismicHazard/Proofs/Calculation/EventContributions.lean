import SeismicHazard.Proofs.Calculation.Causes

/-!
# What events contribute

The ruptures of points and areas that count for a site are the events within the distance of the site.
So a result gathers one contribution of each of these.

* `Calculation.causes_eq_events`: the ruptures that count for a site.
* `Calculation.Prepares.contributions_eq`: what all sources contribute.
* `Calculation.Prepares.contributions_ne_zero_iff_events`: which results anything is contributed to.
-/

namespace SeismicHazard.Calculation

section

variable {α : Type} [Field α] [LinearOrder α] [FloorRing α] [Elementary α] {config : Config α}
  {inputs : Inputs α} {k : ResultKey α} {st : Setting α} {r : Realization α} {skipped : List Nat}
  {groups : List (WorkGroup α)} {site : Site α}

/-- An event as a rupture that is seen from a place. -/
def Event.cause (e : Event α) (place : Point α) : Cause α :=
  ⟨e.group, e.region, e.rupture, e.scenario place⟩

/-- The ruptures of a point or an area that count for a site are its events within the distance. -/
theorem causesOf_eq_eventsOf {s : Source α} (hs : s.IsNodal) (group : String) (site : Site α)
    (bound : α) : causesOf group s (capped bound site) =
      ((eventsOf group s).filter (·.Within site bound)).map (·.cause site.location) := by
  set near := capped bound site with hnear
  have hmax : near.maxDistance = Min.min site.maxDistance bound := Scalar.min_eq _ _
  have hlocation : near.location = site.location := rfl
  have heach : ∀ rupture ∈ s.ruptures,
      (((rupture.surface.map fun node => (⟨group, s.region, rupture.magnitude, rupture.rate, node⟩ :
        Event α)).filter (·.Within site bound)).map (·.cause site.location)) =
      ((Scenario.ofRupture? rupture near).map fun scenario =>
        (⟨group, s.region, rupture, scenario⟩ : Cause α)).toList := by
    intro rupture hrupture
    obtain ⟨node, -, hsurface, -⟩ := Source.exists_node hs hrupture
    have hsame : rupture = ⟨rupture.magnitude, rupture.rate, [node]⟩ := by rw [← hsurface]
    rw [Scenario.ofRupture?_of_surface hsurface, hsurface, List.map_singleton, hmax, hlocation]
    set e : Event α := ⟨group, s.region, rupture.magnitude, rupture.rate, node⟩
    by_cases hwithin : e.Within site bound
    · rw [if_neg (not_lt.2 hwithin), List.filter_cons_of_pos (by simpa using hwithin), hsame]
      rfl
    · rw [if_pos (not_le.1 hwithin), List.filter_cons_of_neg (by simpa using hwithin)]
      rfl
  rw [eventsOf, List.filter_flatMap, List.map_flatMap, List.flatMap_congr heach,
    ← List.filterMap_eq_flatMap_toList, causesOf]
  split
  · rfl
  · next hfar =>
    -- the ruptures are even farther away than the source
    symm
    rw [List.filterMap_eq_nil_iff]
    intro rupture hrupture
    obtain ⟨node, -, hsurface, hmin⟩ := Source.exists_node hs hrupture
    rw [Scenario.ofRupture?_of_surface hsurface,
      if_pos ((not_le.1 hfar).trans_le (hmin near.location))]
    rfl

theorem causes_eq_events (hnodal : NodalSources inputs) (n : Nat) (site : Site α) (bound : α) :
    causes inputs n (capped bound site) =
      ((events inputs n).filter (·.Within site bound)).map (·.cause site.location) := by
  unfold causes events
  rw [List.filter_flatMap, List.map_flatMap]
  refine List.flatMap_congr fun m hm => ?_
  split
  · rw [List.filter_flatMap, List.map_flatMap]
    refine List.flatMap_congr fun g hg => ?_
    rw [List.filter_flatMap, List.map_flatMap]
    exact List.flatMap_congr fun s hs => causesOf_eq_eventsOf (hnodal m hm g hg s hs) _ _ _
  · rfl

namespace Prepares

variable [IsStrictOrderedRing α]

/-- The contributions to a requested result: one of every event of the source models of its
realization that is within the distance of its site. -/
theorem contributions_eq (h : Prepares config inputs st skipped groups)
    (hfeasible : AllFeasible st groups) (hnodal : NodalSources inputs)
    (hrepeats : NoRepeats config inputs) (hc : Concerns config inputs st k r site) :
    contributions st groups k = (((events inputs r.sourceModel).filter
      (·.Within site config.maxDistance)).map
        fun e => e.contribution config inputs r site.location st.regions k : List _) := by
  rw [h.contributions_eq_causes hfeasible hrepeats hc, causes_eq_events hnodal, List.map_map]
  rfl

/-- Something is contributed exactly to what is requested about a realization, at a site within whose
distance there is an event of its source models. -/
theorem contributions_ne_zero_iff_events (h : Prepares config inputs st skipped groups)
    (hfeasible : AllFeasible st groups) (hnodal : NodalSources inputs)
    (hrepeats : NoRepeats config inputs) :
    contributions st groups k ≠ 0 ↔ ∃ r, ∃ site ∈ inputs.sites.toList,
      Concerns config inputs st k r site ∧
        ∃ e ∈ events inputs r.sourceModel, e.Within site config.maxDistance := by
  have hcauses : ∀ (r : Realization α) (site : Site α),
      causes inputs r.sourceModel (capped config.maxDistance site) ≠ [] ↔
        ∃ e ∈ events inputs r.sourceModel, e.Within site config.maxDistance := by
    intro r site
    rw [causes_eq_events hnodal, Ne, List.map_eq_nil_iff, List.filter_eq_nil_iff]
    simp
  rw [h.contributions_ne_zero_iff hfeasible hrepeats]
  simp only [hcauses]

/-- Within the distance of the site of a requested result, the region of an event is known and its
model answers. -/
theorem of_event (h : Prepares config inputs st skipped groups)
    (hfeasible : AllFeasible st groups) (hnodal : NodalSources inputs)
    (hrepeats : NoRepeats config inputs) (hc : Concerns config inputs st k r site)
    {e : Event α} (he : e ∈ events inputs r.sourceModel)
    (hwithin : e.Within site config.maxDistance) :
    (st.regions.idxOf? e.region).isSome ∧ ∃ poes,
      e.poes? config inputs r site.location k = some poes ∧ poes.length = st.epsilonBins := by
  have hcause : e.cause site.location ∈
      causes inputs r.sourceModel (capped config.maxDistance site) := by
    rw [causes_eq_events hnodal]
    exact List.mem_map_of_mem (List.mem_filter.2 ⟨he, decide_eq_true hwithin⟩)
  exact h.of_cause hfeasible hrepeats hc hcause

end Prepares

end

end SeismicHazard.Calculation
