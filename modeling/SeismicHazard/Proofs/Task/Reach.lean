import SeismicHazard.Proofs.Source.Ruptures
import SeismicHazard.Proofs.Task.Contributions

/-!
# Sources as a whole and their parts in reach

Sources may be split, and parts out of reach of all sites left out, without a change of what is seen
of them: a rupture of a point or an area is as far away as its place, whatever source it belongs to,
and no other source is split.

* `WorkGroup.sightings_eq`: the sightings of a point or an area, found rupture by rupture.
* `WorkGroup.flatMap_sightings_parts`: the sightings of the parts in reach are those of the sources.
* `WorkGroup.contributions_parts`: so are the contributions.
-/

namespace SeismicHazard

/-- Members that yield nothing may be left out. -/
theorem flatMap_filter {β γ : Type} {p : β → Bool} {f : β → List γ} (h : ∀ x, ¬ p x → f x = [])
    {xs : List β} : (xs.filter p).flatMap f = xs.flatMap f := by
  induction xs with
  | nil => rfl
  | cons x xs ih =>
    by_cases hx : p x
    · rw [List.filter_cons_of_pos hx, List.flatMap_cons, List.flatMap_cons, ih]
    · rw [List.filter_cons_of_neg hx, List.flatMap_cons, h x hx, ih]
      rfl

section

variable {α : Type} [Field α] [LinearOrder α] [FloorRing α] [Elementary α]

/-- The sites with a grid. -/
def Setting.gridSites (st : Setting α) : List (Site α) :=
  st.sites.toList.filter fun site => st.grids.contains site.id

theorem Setting.sitesOf_eq (st : Setting α) (s : Source α) : st.sitesOf s =
    st.gridSites.filter fun site => decide (s.minDistance site.location ≤ site.maxDistance) := by
  unfold sitesOf Source.sitesInReach gridSites
  rw [List.filter_filter, List.filter_filter]
  refine List.filter_congr fun site _ => ?_
  rw [Bool.and_comm]

/-- A rupture at one place counts for a site if the place is not farther than the site's distance. -/
theorem Scenario.ofRupture?_of_surface {r : Rupture α} {node : Point α} (h : r.surface = [node])
    (site : Site α) : Scenario.ofRupture? r site =
      if site.maxDistance < node.distance site.location then none
      else some ⟨r.magnitude, node.distance site.location,
        slantDistance (node.distance site.location) node.depth, node⟩ := by
  unfold ofRupture?
  rw [Rupture.nearest_of_surface h]

namespace WorkGroup

variable {w : WorkGroup α} {st : Setting α}

/-- The sites in reach of a point or an area are found again by looking at each rupture. -/
theorem sightings_eq {s : Source α} (hs : s.IsNodal) : w.sightings st s =
    s.ruptures.flatMap fun r => st.gridSites.filterMap (w.sighting? (st.regionOf s) r) := by
  unfold sightings
  refine List.flatMap_congr fun r hr => ?_
  obtain ⟨node, -, hsurface, hdistance⟩ := Source.exists_node hs hr
  rw [st.sitesOf_eq, List.filterMap_filter]
  refine List.filterMap_congr fun site _ => ?_
  split
  · rfl
  · next hfar =>
    -- the rupture is even farther away than the source
    have hbeyond : site.maxDistance < node.distance site.location :=
      (not_le.1 fun hle => hfar (decide_eq_true hle)).trans_le (hdistance site.location)
    unfold sighting?
    rw [Scenario.ofRupture?_of_surface hsurface, if_pos hbeyond]

/-- The sightings of a point or an area: its ruptures at the sites within whose distance they lie. -/
theorem mem_sightings_iff {s : Source α} (hs : s.IsNodal) {v : Sighting α} :
    v ∈ w.sightings st s ↔ ∃ r ∈ s.ruptures, ∃ node ∈ s.nodes, r.surface = [node] ∧
      ∃ site ∈ st.gridSites, node.distance site.location ≤ site.maxDistance ∧
      ∃ levels, w.levels[site.id]? = some levels ∧
        v = ⟨r, site, ⟨r.magnitude, node.distance site.location,
          Scenario.slantDistance (node.distance site.location) node.depth, node⟩, levels,
          st.regionOf s⟩ := by
  rw [sightings_eq hs]
  simp only [List.mem_flatMap, List.mem_filterMap]
  constructor
  · rintro ⟨r, hr, site, hsite, hv⟩
    obtain ⟨node, hnode, hsurface, -⟩ := Source.exists_node hs hr
    refine ⟨r, hr, node, hnode, hsurface, site, hsite, ?_⟩
    unfold sighting? at hv
    rw [Scenario.ofRupture?_of_surface hsurface] at hv
    split at hv
    · next scenario levels hscenario hlevels =>
      cases hv
      obtain ⟨hnear, hscenario⟩ := Option.ite_none_left_eq_some.1 hscenario
      cases hscenario
      exact ⟨not_lt.1 hnear, levels, hlevels, rfl⟩
    · cases hv
  · rintro ⟨r, hr, node, -, hsurface, site, hsite, hnear, levels, hlevels, rfl⟩
    refine ⟨r, hr, site, hsite, ?_⟩
    unfold sighting?
    rw [Scenario.ofRupture?_of_surface hsurface, if_neg (not_lt.2 hnear), hlevels]

theorem sightings_of_not_affects {s : Source α} (h : ¬ s.affects st.sites) :
    w.sightings st s = [] := by
  have hsites : s.sitesInReach st.sites = [] := by
    simpa [Source.affects] using h
  have hnone : st.sitesOf s = [] := by
    rw [Setting.sitesOf, hsites]
    rfl
  unfold sightings
  rw [hnone]
  simp

variable [IsStrictOrderedRing α]

/-- A source is seen as its parts are. -/
theorem flatMap_sightings_split (s : Source α) :
    s.split.flatMap (w.sightings st) = w.sightings st s := by
  cases s with
  | point s => exact List.flatMap_singleton _ _
  | listed s => exact List.flatMap_singleton _ _
  | area s =>
    have hs : (Source.area s).IsNodal := trivial
    have hpart : ∀ part ∈ (Source.area s).split, w.sightings st part =
        part.ruptures.flatMap fun r =>
          st.gridSites.filterMap (w.sighting? (st.regionOf (.area s)) r) := by
      intro part hpart
      obtain ⟨hregion, hnodal⟩ := Source.of_mem_split hpart
      rw [sightings_eq (hnodal hs), Setting.regionOf, hregion]
      rfl
    rw [List.flatMap_congr hpart, sightings_eq hs, ← List.flatMap_assoc, Source.ruptures_split]

/-- The parts in reach are seen as their sources are. -/
theorem flatMap_sightings_parts :
    (w.parts st.sites).flatMap (w.sightings st) = w.sources.flatMap (w.sightings st) := by
  rw [parts, flatMap_filter fun part hpart => sightings_of_not_affects hpart, List.flatMap_assoc]
  exact List.flatMap_congr fun s _ => flatMap_sightings_split s

/-- The parts in reach contribute what their sources do. -/
theorem contributions_parts (k : ResultKey α) :
    (w.parts st.sites : Multiset (Source α)).bind (fun s => w.contributions st s k) =
      (w.sources : Multiset (Source α)).bind fun s => w.contributions st s k := by
  have hbind : ∀ sources : List (Source α),
      (sources : Multiset (Source α)).bind (fun s => w.contributions st s k) =
        (sources.flatMap (w.sightings st) : Multiset (Sighting α)).bind
          fun v => w.contributionsOf st v k := by
    intro sources
    rw [← Multiset.coe_bind, Multiset.bind_assoc]
    rfl
  rw [hbind, hbind, flatMap_sightings_parts]

end WorkGroup

end

end SeismicHazard
