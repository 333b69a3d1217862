import SeismicHazard.Proofs.Calculation.Event
import SeismicHazard.Proofs.Calculation.Geometry

/-!
# Which sites are skipped

Four places compare distances: the extent of a site passes over sources, sites without a rupture are
skipped, parts of sources are left out, and a task looks only at sites in reach of a source. For points
and areas none of them leaves out a rupture at a site within whose distance it lies.

* `Inputs.Reaches`: whether a rupture lies within the distance of a site.
* `Calculation.Prepares.skipped_eq`: the skipped sites are those that no rupture reaches.
* `Calculation.Prepares.mem_sitesInReach`: a part with a rupture in reach of a site is so itself.
* `Calculation.exists_task`: it is in a task if a realization belongs to its source model.
* `Calculation.skipped_iff_not_reached`: all of this for a plan.
-/

namespace SeismicHazard

section

variable {α : Type} [Field α] [LinearOrder α] [FloorRing α] [Elementary α]

namespace Inputs

/-- Whether the nearest node of a rupture with a rate greater than zero lies within the distance of a
site and within `bound`. -/
def Reaches (inputs : Inputs α) (bound : α) (site : Site α) : Prop :=
  ∃ m ∈ inputs.models, ∃ g ∈ m.groups, ∃ s ∈ g.sources, ∃ r ∈ s.ruptures,
    0 < r.rate ∧ ∃ x ∈ r.nearest site.location, x.1 ≤ min site.maxDistance bound

instance (inputs : Inputs α) (bound : α) : DecidablePred (inputs.Reaches bound) := fun _ =>
  inferInstanceAs (Decidable (∃ m ∈ inputs.models, _))

end Inputs

/-- The ruptures of a point or an area that count for a site are those that are seen there. -/
theorem Extent.contributions_eq {s : Source α} (hs : s.IsNodal) (site : Site α) :
    contributions site s = s.ruptures.filterMap fun r =>
      (Scenario.ofRupture? r site).map fun x => (x.horizontal, x.node.lon, x.node.lat) := by
  have hcontribution : ∀ r ∈ s.ruptures, contribution? site r =
      (Scenario.ofRupture? r site).map fun x => (x.horizontal, x.node.lon, x.node.lat) := by
    intro r hr
    obtain ⟨node, -, hsurface, -⟩ := Source.exists_node hs hr
    rw [Scenario.ofRupture?_of_surface hsurface, contribution?, Rupture.nearest_of_surface hsurface]
    by_cases hnear : node.distance site.location ≤ site.maxDistance
    · simp [hnear, not_lt.2 hnear]
    · simp [hnear, not_le.1 hnear]
  rw [← List.filterMap_congr hcontribution]
  unfold contributions
  split
  · next hfar =>
    symm
    refine List.filterMap_eq_nil_iff.2 fun r hr => ?_
    obtain ⟨node, -, hsurface, hdistance⟩ := Source.exists_node hs hr
    rw [contribution?, Rupture.nearest_of_surface hsurface]
    exact if_neg (not_le.2 (hfar.trans_le (hdistance site.location)))
  · rfl

/-- A rupture that is seen at a site lies within its distance, and so does its source. -/
theorem Source.minDistance_le_of_scenario {s : Source α} (hs : s.IsNodal) {r : Rupture α}
    (hr : r ∈ s.ruptures) {site : Site α} (h : (Scenario.ofRupture? r site).isSome) :
    s.minDistance site.location ≤ site.maxDistance := by
  obtain ⟨node, -, hsurface, hdistance⟩ := Source.exists_node hs hr
  rw [Scenario.ofRupture?_of_surface hsurface] at h
  split at h
  · cases h
  · next hnear => exact (hdistance site.location).trans (not_lt.1 hnear)

end

namespace Calculation

section

variable {α : Type} [Field α] [LinearOrder α] [FloorRing α] [Elementary α] {config : Config α}
  {inputs : Inputs α} {st : Setting α} {skipped : List Nat} {groups : List (WorkGroup α)}

namespace Prepares

/-- A group of a source model that a realization belongs to is worked on. -/
theorem exists_mem_groups (h : Prepares config inputs st skipped groups) {m : SourceModel α}
    (hm : m ∈ inputs.models) {g : SourceGroup α} (hg : g ∈ m.groups)
    (hrealization : ∃ r ∈ inputs.tree.realizations, r.sourceModel = m.ordinal) :
    ∃ w ∈ groups, w.sourceModel = m.ordinal ∧ w.group = g.id ∧ w.sources = g.sources := by
  obtain ⟨x, hx⟩ := h.exists_workGroup hm hg
  cases x with
  | none =>
    obtain ⟨r, hr, hmodel⟩ := hrealization
    have hmem := mem_ofModel.2 ⟨hr, hmodel⟩
    rw [ofModel_eq_nil hx] at hmem
    cases hmem
  | some w =>
    refine ⟨w, h.mem_groups.2 ⟨m, hm, g, hg, workGroup?_eq_some.2 hx⟩, ?_⟩
    obtain ⟨byModel, -, ⟨-, hnone⟩ | ⟨-, models, -, hw⟩⟩ := workGroup_eq_ok.1 hx
    · cases hnone
    · cases hw
      exact ⟨rfl, rfl, rfl⟩

variable [IsStrictOrderedRing α]

/-- The extent of a site holds a rupture if one reaches the site. -/
theorem seenFrom_ne_nil_iff (hnodal : NodalSources inputs) (site : Site α) :
    Extent.seenFrom inputs.models (capped config.maxDistance site) ≠ [] ↔
      inputs.Reaches config.maxDistance site := by
  have hdistance : (capped config.maxDistance site).maxDistance =
      min site.maxDistance config.maxDistance := Scalar.min_eq _ _
  constructor
  · intro hne
    obtain ⟨x, hx⟩ := List.exists_mem_of_ne_nil _ hne
    obtain ⟨m, hm, g, hg, s, hs, hx⟩ := Extent.mem_seenFrom.1 hx
    obtain ⟨r, hr, node, -, hsurface, hnear, rfl⟩ :=
      (Extent.mem_contributions (hnodal m hm g hg s hs)).1 hx
    refine ⟨m, hm, g, hg, s, hs, r, hr, Source.rate_pos (hnodal m hm g hg s hs) hr, ?_⟩
    exact ⟨_, Rupture.nearest_of_surface hsurface _, hnear.trans_eq hdistance⟩
  · rintro ⟨m, hm, g, hg, s, hs, r, hr, -, x, hx, hnear⟩
    obtain ⟨node, hnode, hsurface, -⟩ := Source.exists_node (hnodal m hm g hg s hs) hr
    rw [Rupture.nearest_of_surface hsurface] at hx
    cases hx
    have hcontribution : (_, node.lon, node.lat) ∈
        Extent.contributions (capped config.maxDistance site) s :=
      (Extent.mem_contributions (hnodal m hm g hg s hs)).2
        ⟨r, hr, node, hnode, hsurface, hnear.trans_eq hdistance.symm, rfl⟩
    exact List.ne_nil_of_mem (Extent.mem_seenFrom.2 ⟨m, hm, g, hg, s, hs, hcontribution⟩)

/-- A site has a grid if a rupture reaches it. -/
theorem isSome_grids_iff_reaches (h : Prepares config inputs st skipped groups)
    (hnodal : NodalSources inputs) {site : Site α} (hsite : site ∈ inputs.sites.toList) :
    st.grids[site.id]?.isSome ↔ inputs.Reaches config.maxDistance site := by
  have hcapped : capped config.maxDistance site ∈ (cappedSites config inputs).toList :=
    List.mem_map_of_mem hsite
  rw [h.isSome_grids_iff, ← seenFrom_ne_nil_iff hnodal]
  constructor
  · rintro ⟨near, hnear, hid, hsome⟩
    rw [← h.eq_of_id_eq hnear hcapped hid]
    exact (Extent.ofSite_holds _ _).isSome_longitude?_iff.1 hsome
  · intro hne
    exact ⟨_, hcapped, rfl, (Extent.ofSite_holds _ _).isSome_longitude?_iff.2 hne⟩

/-- The skipped sites are those that no rupture reaches, in their order. -/
theorem skipped_eq (h : Prepares config inputs st skipped groups) (hnodal : NodalSources inputs) :
    skipped = (inputs.sites.toList.filter fun site =>
      ¬ inputs.Reaches config.maxDistance site).map (·.id) := by
  rw [h.skipped_eq_filter, Sites.ids, List.filter_map]
  congr 1
  refine List.filter_congr fun site hsite => ?_
  rw [Function.comp_apply, ← Option.not_isSome]
  simp only [← h.isSome_grids_iff_reaches hnodal hsite, Bool.decide_eq_true, decide_not]

/-- A site is reached by every rupture that is seen there. -/
theorem reaches_of_scenario (hnodal : NodalSources inputs) {m : SourceModel α}
    (hm : m ∈ inputs.models) {g : SourceGroup α} (hg : g ∈ m.groups) {s : Source α}
    (hs : s ∈ g.sources) {r : Rupture α} (hr : r ∈ s.ruptures) {site : Site α}
    (hseen : (Scenario.ofRupture? r (capped config.maxDistance site)).isSome) :
    inputs.Reaches config.maxDistance site := by
  refine (seenFrom_ne_nil_iff hnodal site).1 ?_
  obtain ⟨x, hx⟩ := Option.isSome_iff_exists.1 hseen
  have hcontribution : (x.horizontal, x.node.lon, x.node.lat) ∈
      Extent.contributions (capped config.maxDistance site) s := by
    rw [Extent.contributions_eq (hnodal m hm g hg s hs)]
    exact List.mem_filterMap.2 ⟨r, hr, by rw [hx]; rfl⟩
  exact List.ne_nil_of_mem (Extent.mem_seenFrom.2 ⟨m, hm, g, hg, s, hs, hcontribution⟩)

/-- The site of a rupture that is seen there is in reach of every part that has the rupture. -/
theorem mem_sitesInReach (h : Prepares config inputs st skipped groups)
    (hnodal : NodalSources inputs) {m : SourceModel α} (hm : m ∈ inputs.models)
    {g : SourceGroup α} (hg : g ∈ m.groups) {s : Source α} (hs : s ∈ g.sources)
    {part : Source α} (hpart : part ∈ s.split) {r : Rupture α} (hr : r ∈ part.ruptures)
    {site : Site α} (hsite : site ∈ inputs.sites.toList)
    (hseen : (Scenario.ofRupture? r (capped config.maxDistance site)).isSome) :
    capped config.maxDistance site ∈ st.sitesOf part ∧
      capped config.maxDistance site ∈ part.sitesInReach st.sites := by
  have hwhole : r ∈ s.ruptures := by
    rw [← s.ruptures_split]
    exact List.mem_flatMap.2 ⟨part, hpart, hr⟩
  have hreached := reaches_of_scenario hnodal hm hg hs hwhole hseen
  have hgrid : st.grids.contains site.id := by
    rw [Std.TreeMap.contains_eq_isSome_getElem?]
    exact (h.isSome_grids_iff_reaches hnodal hsite).2 hreached
  have hmem : capped config.maxDistance site ∈ st.sites.toList :=
    h.mem_sites.2 ⟨List.mem_map_of_mem hsite, hgrid⟩
  have hdistance := Source.minDistance_le_of_scenario
    ((Source.of_mem_split hpart).2 (hnodal m hm g hg s hs)) hr hseen
  have hreach : capped config.maxDistance site ∈ part.sitesInReach st.sites :=
    List.mem_filter.2 ⟨hmem, decide_eq_true hdistance⟩
  exact ⟨List.mem_filter.2 ⟨hreach, hgrid⟩, hreach⟩

end Prepares

/-- The tasks of a plan hold every part in reach of a site, if a realization belongs to its source
model. -/
theorem exists_task {c : Calculation α} {p : Plan α} (hplan : c.plan inputs = .ok p)
    {m : SourceModel α} (hm : m ∈ inputs.models) {g : SourceGroup α} (hg : g ∈ m.groups)
    {s : Source α} (hs : s ∈ g.sources) {part : Source α} (hpart : part ∈ s.split)
    (haffects : part.affects p.setting.sites)
    (hrealization : ∃ r ∈ inputs.tree.realizations, r.sourceModel = m.ordinal) :
    ∃ t ∈ p.tasks, t.work.sourceModel = m.ordinal ∧ t.work.group = g.id ∧
      part ∈ t.work.sources := by
  obtain ⟨st, skipped, groups, h, rfl⟩ := plan_eq_ok.1 hplan
  obtain ⟨w, hw, hmodel, hid, hsources⟩ := h.exists_mem_groups hm hg hrealization
  have hparts : part ∈ w.parts st.sites :=
    List.mem_filter.2 ⟨List.mem_flatMap.2 ⟨s, hsources ▸ hs, hpart⟩, haffects⟩
  have hjob : (w.bare, part) ∈ groups.flatMap fun w => (w.parts st.sites).map fun s => (w.bare, s) :=
    List.mem_flatMap.2 ⟨w, hw, List.mem_map_of_mem hparts⟩
  rw [← WorkGroup.flatMap_jobs_tasks st (c.config.taskCount c.workers) c.config.pointFactor,
    List.mem_flatMap] at hjob
  obtain ⟨t, ht, hjob⟩ := hjob
  obtain ⟨_, hmem, hpair⟩ := List.mem_map.1 hjob
  obtain ⟨hbare, rfl⟩ := Prod.mk.inj hpair
  refine ⟨t, ht, ?_, ?_, hmem⟩
  · exact (congrArg (·.sourceModel) hbare).trans hmodel
  · exact (congrArg (·.group) hbare).trans hid

variable [BitPattern α]

/-- The results of the tasks are about sites with a grid. -/
theorem isSome_grids_of_compute (h : Prepares config inputs st skipped groups) {t : Task α}
    (ht : t.setting = st) {part : PartialResult α} (hpart : t.compute = .ok part) {k : ResultKey α}
    (hk : part.results[k]?.isSome) : st.grids[k.site]?.isSome := by
  have hshared : t.setting.SharesEpsilon := ht ▸ h.sharesEpsilon
  obtain ⟨part', hpart', hgathers⟩ :=
    Task.compute_gathers hshared (Task.feasible_of_compute hshared hpart)
  rw [hpart] at hpart'
  cases hpart'
  obtain ⟨g, hg, -⟩ := hgathers.present k ((hgathers.isSome_iff k).1 hk)
  rw [← ht, hg]
  rfl

variable [IsStrictOrderedRing α]

/-- The skipped sites of a plan over points and areas are those that no rupture with a rate greater
than zero reaches, in their order. All other sites have edges, and no result of a task is about a
skipped one. A rupture that is seen from a site is left out nowhere: it is among those that the edges
of the site are laid around, the site is not skipped, every part of its source that has it is in a
task, and there the site is looked at. A source model without a realization has no tasks. -/
theorem skipped_iff_not_reached {c : Calculation α} {p : Plan α} (hnodal : NodalSources inputs)
    (hplan : c.plan inputs = .ok p) :
    p.skipped = (inputs.sites.toList.filter fun site =>
      ¬ inputs.Reaches c.config.maxDistance site).map (·.id) ∧
    (∀ id ∈ inputs.sites.ids, p.setting.grids[id]?.isSome ↔ id ∉ p.skipped) ∧
    (∀ t ∈ p.tasks, ∀ part, t.compute = .ok part →
      ∀ k : ResultKey α, part.results[k]?.isSome → k.site ∉ p.skipped) ∧
    ∀ m ∈ inputs.models, ∀ g ∈ m.groups, ∀ s ∈ g.sources, ∀ site ∈ inputs.sites.toList,
      let near := capped c.config.maxDistance site
      (Extent.contributions near s = s.ruptures.filterMap fun r =>
        (Scenario.ofRupture? r near).map fun x => (x.horizontal, x.node.lon, x.node.lat)) ∧
      ∀ r ∈ s.ruptures, (Scenario.ofRupture? r near).isSome →
        near ∈ p.setting.sites.toList ∧ (∃ part ∈ s.split, r ∈ part.ruptures) ∧
        ∀ part ∈ s.split, r ∈ part.ruptures →
          part.affects p.setting.sites ∧ near ∈ part.sitesInReach p.setting.sites ∧
          ((∃ r' ∈ inputs.tree.realizations, r'.sourceModel = m.ordinal) →
            ∃ t ∈ p.tasks, t.work.sourceModel = m.ordinal ∧ t.work.group = g.id ∧
              part ∈ t.work.sources ∧ near ∈ t.sitesOf part) := by
  obtain ⟨st, skipped, groups, h, rfl⟩ := plan_eq_ok.1 hplan
  have hgrids : ∀ id ∈ inputs.sites.ids, st.grids[id]?.isSome ↔ id ∉ skipped := by
    intro id hid
    rw [h.skipped_eq_filter, List.mem_filter, ← Option.not_isSome]
    simp [hid]
  refine ⟨h.skipped_eq hnodal, hgrids, fun t ht part hpart k hk hskipped => ?_, ?_⟩
  · have hsome := isSome_grids_of_compute h (WorkGroup.setting_of_mem_tasks ht) hpart hk
    rw [h.skipped_eq_filter, List.mem_filter, ← Option.not_isSome, hsome] at hskipped
    cases hskipped.2
  · intro m hm g hg s hs site hsite near
    refine ⟨Extent.contributions_eq (hnodal m hm g hg s hs) near, fun r hr hseen => ?_⟩
    have hpart : ∃ part ∈ s.split, r ∈ part.ruptures := by
      rw [← s.ruptures_split] at hr
      exact List.mem_flatMap.1 hr
    have hreach : ∀ part ∈ s.split, r ∈ part.ruptures →
        near ∈ st.sitesOf part ∧ near ∈ part.sitesInReach st.sites := fun part hpart hr =>
      h.mem_sitesInReach hnodal hm hg hs hpart hr hsite hseen
    refine ⟨?_, hpart, fun part hpart hr => ?_⟩
    · obtain ⟨part, hpart, hr⟩ := hpart
      exact List.mem_of_mem_filter (hreach part hpart hr).2
    · have haffects : part.affects st.sites := by
        have hne := List.ne_nil_of_mem (hreach part hpart hr).2
        simpa [Source.affects] using hne
      refine ⟨haffects, (hreach part hpart hr).2, fun hrealization => ?_⟩
      obtain ⟨t, ht, hmodel, hgroup, hmem⟩ :=
        exists_task hplan hm hg hs hpart haffects hrealization
      refine ⟨t, ht, hmodel, hgroup, hmem, ?_⟩
      have hst := WorkGroup.setting_of_mem_tasks ht
      have hsites := (hreach part hpart hr).1
      rw [← hst] at hsites
      exact hsites

end

/-! ### A sample -/

namespace Sample

/-- A site out of reach of all sources before the one between them. -/
def distant : Inputs ℚ := { inputs with sites := ⟨[⟨7, .surface 0 0, 100⟩, ⟨0, .surface 179 0, 100⟩]⟩ }

/-- The point of the sample, one degree west and one north of the site. -/
def point : Source ℚ := .point ⟨"point", "A", ⟨178, 1, 10⟩, recurrence⟩

theorem nodal_distant : NodalSources distant := fun m hm g hg s hs =>
  (properSources m hm g hg s hs).nodal

end Sample

open Sample in
theorem skipped_iff_not_reached_sample : ∃ p, Sample.calculation.plan distant = .ok p ∧
    p.skipped = [7] ∧ p.setting.grids[0]?.isSome ∧
    ∃ t ∈ p.tasks, ∃ part ∈ t.work.sources, ∃ r ∈ part.ruptures, ∃ near ∈ t.sitesOf part,
      near.id = 0 ∧ (Scenario.ofRupture? r near).isSome := by
  obtain ⟨p, hplan⟩ := Fallible.exists_of_toBool
    (show (Sample.calculation.plan distant).toBool = true by decide +kernel)
  obtain ⟨hskipped, hgrids, -, hpairs⟩ := skipped_iff_not_reached nodal_distant hplan
  have hseven : p.skipped = [7] := hskipped.trans (by decide +kernel)
  refine ⟨p, hplan, hseven, (hgrids 0 (by decide +kernel)).2 (by simp [hseven]), ?_⟩
  obtain ⟨-, hpair⟩ := hpairs _ (List.mem_singleton_self _) _ (List.mem_singleton_self _) point
    List.mem_cons_self _ (List.mem_cons_of_mem _ (List.mem_singleton_self _))
  have hseen : ∀ r ∈ point.ruptures,
      (Scenario.ofRupture? r (capped 200 ⟨0, .surface 179 0, 100⟩)).isSome := by decide +kernel
  have hlength : 0 < point.ruptures.length := by decide +kernel
  have hfirst := List.getElem_mem hlength
  obtain ⟨-, ⟨part, hpart, hr⟩, hparts⟩ := hpair _ hfirst (hseen _ hfirst)
  obtain ⟨-, -, htask⟩ := hparts part hpart hr
  obtain ⟨t, ht, -, -, hmem, hnear⟩ := htask ⟨_, List.mem_singleton_self _, rfl⟩
  exact ⟨t, ht, part, hmem, _, hr, _, hnear, rfl, hseen _ hfirst⟩

end Calculation

end SeismicHazard
