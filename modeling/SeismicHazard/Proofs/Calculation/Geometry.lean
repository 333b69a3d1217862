import SeismicHazard.Proofs.Calculation.Run
import SeismicHazard.Proofs.Calculation.Work
import SeismicHazard.Proofs.Config.Validation
import SeismicHazard.Proofs.Grid.Extent
import SeismicHazard.Proofs.Task.Reach

/-!
# Planned tasks succeed

The edges of a site are laid around the ruptures of whole sources, while tasks look up the ruptures
of the parts of the sources that are in reach. Both see the same ruptures, so that every one of them
has its bins.

* `Source.Proper`, `ModelLibrary.Answers`, `Calculation.IndicesFit`: what is asked of the inputs.
* `Calculation.Prepares.axes_ascend`: every grid has ascending edges.
* `Calculation.Prepares.exists_place`: every rupture within the distance of a site has bins there.
* `Calculation.Prepares.allFeasible`: the work on all parts of sources succeeds.
* `Calculation.planned_tasks_succeed`: so do all tasks, and merging their results.
-/

namespace SeismicHazard

theorem SourceModel.mem_regions {α : Type} {models : List (SourceModel α)} {region : String} :
    region ∈ SourceModel.regions models ↔ ∃ m ∈ models, ∃ g ∈ m.groups, g.region = region := by
  rw [regions, Std.TreeSet.mem_toList, Std.TreeSet.mem_ofList]
  simp

theorem Setting.regionOf_lt {α : Type} {st : Setting α} {s : Source α}
    (h : (st.regionIndex? s.region).isSome) : st.regionOf s < st.regions.length := by
  obtain ⟨i, hi⟩ := Option.isSome_iff_exists.1 h
  rw [Setting.regionOf, hi, Option.getD_some]
  exact (List.idxOf?_eq_some_iff.1 hi).1

section

variable {α : Type} [Field α] [LinearOrder α] [FloorRing α]

/-- Whether the models of a library answer every question about the given epsilon bins, with one
value for each. -/
def ModelLibrary.Answers (l : ModelLibrary α) (edges : List α) : Prop :=
  ∀ name model, l.get name = .ok model → ∀ s q, q.epsilonEdges = edges →
    ∃ poes, model.exceedance s q = .ok poes ∧ poes.length = edges.length - 1

/-- Results of tasks of one setting can be merged in every order. -/
theorem Reduction.exists_merge {st : Setting α} {parts : List (PartialResult α)}
    (h : ∀ part ∈ parts, ∃ C, part.results.Gathers st C) :
    ∃ done, runInTurn Except.ok Reduction.merge parts ⟨Reduction.empty, none⟩ =
      (⟨done, none⟩ : Controller (Reduction α) (Error α)) := by
  let gathers (_ : List (PartialResult α)) (r : Reduction α) : Prop :=
    ∃ C, r.results.Gathers st C
  have hstart : gathers [] Reduction.empty := ⟨0, Results.Gathers.empty st⟩
  have hstep : ∀ done part rest r, done ++ part :: rest = parts → gathers done r →
      ∃ p r', (Except.ok part : Except (Error α) _) = .ok p ∧ Reduction.merge r p = (r', none) ∧
        gathers (done ++ [part]) r' := by
    rintro done part rest r hdone ⟨C, hr⟩
    obtain ⟨C', hpart⟩ := h part (hdone ▸ List.mem_append_right _ List.mem_cons_self)
    obtain ⟨r', hmerge, hr'⟩ := Reduction.merge_gathers hr hpart
    exact ⟨part, r', rfl, hmerge, _, hr'⟩
  obtain ⟨done, hdone, -⟩ := runInTurn_keeps hstart hstep
  exact ⟨done, hdone⟩

variable [Elementary α]

/-- A source of a group with the given region: a point or an area that can be made, with that region
and with longitudes of at most half a turn to either side. -/
structure Source.Proper (s : Source α) (region : String) : Prop where
  nodal : s.IsNodal
  made : s.IsMade
  region : s.region = region
  longitude : ∀ node ∈ s.nodes, -180 ≤ node.lon ∧ node.lon ≤ 180

/-! ### Extents -/

namespace Extent

theorem contribution?_eq_some {site : Site α} {r : Rupture α} {node : Point α}
    (h : r.surface = [node]) {x : α × α × α} : contribution? site r = some x ↔
      node.distance site.location ≤ site.maxDistance ∧
        x = (node.distance site.location, node.lon, node.lat) := by
  unfold contribution?
  rw [Rupture.nearest_of_surface h]
  simp [eq_comm]

/-- The ruptures of a point or an area that count for a site are looked at whether or not the source
is passed over. -/
theorem mem_contributions {site : Site α} {s : Source α} (hs : s.IsNodal) {x : α × α × α} :
    x ∈ contributions site s ↔ ∃ r ∈ s.ruptures, ∃ node ∈ s.nodes, r.surface = [node] ∧
      node.distance site.location ≤ site.maxDistance ∧
      x = (node.distance site.location, node.lon, node.lat) := by
  unfold contributions
  constructor
  · intro hx
    split at hx
    · cases hx
    · obtain ⟨r, hr, hx⟩ := List.mem_filterMap.1 hx
      obtain ⟨node, hnode, hsurface, -⟩ := Source.exists_node hs hr
      exact ⟨r, hr, node, hnode, hsurface, (contribution?_eq_some hsurface).1 hx⟩
  · rintro ⟨r, hr, node, -, hsurface, hx⟩
    obtain ⟨node', -, hsurface', hmin⟩ := Source.exists_node hs hr
    rw [hsurface] at hsurface'
    cases hsurface'
    rw [if_neg (not_lt.2 ((hmin site.location).trans hx.1))]
    exact List.mem_filterMap.2 ⟨r, hr, (contribution?_eq_some hsurface).2 hx⟩

/-- The ruptures that the extent of a site is made of. -/
def seenFrom (models : List (SourceModel α)) (site : Site α) : List (α × α × α) :=
  (SourceModel.allSources models).flatMap (contributions site)

theorem ofSite_holds (models : List (SourceModel α)) (site : Site α) :
    (ofSite models site).Holds (seenFrom models site) :=
  holds_ofRuptures _

theorem mem_seenFrom {models : List (SourceModel α)} {site : Site α} {x : α × α × α} :
    x ∈ seenFrom models site ↔
      ∃ m ∈ models, ∃ g ∈ m.groups, ∃ s ∈ g.sources, x ∈ contributions site s := by
  simp only [seenFrom, SourceModel.allSources, List.mem_flatMap]
  constructor
  · rintro ⟨s, ⟨m, hm, g, hg, hs⟩, hx⟩
    exact ⟨m, hm, g, hg, s, hs, hx⟩
  · rintro ⟨m, hm, g, hg, s, hs, hx⟩
    exact ⟨s, ⟨m, hm, g, hg, hs⟩, hx⟩

end Extent

namespace Calculation

/-- Whether the indices of all edges that are laid out fit into words. -/
structure IndicesFit (config : Config α) (inputs : Inputs α) : Prop where
  magnitude : ∀ span, SourceModel.magnitudes inputs.models = some span →
    FitsWord config.magWidth span
  extent : ∀ site ∈ (cappedSites config inputs).toList,
    (Extent.ofSite inputs.models site).Fits ⟨config.distanceWidth, config.coordinateWidth⟩

/-- Whether all sources of the inputs are proper ones of their groups. -/
def ProperSources (inputs : Inputs α) : Prop :=
  ∀ m ∈ inputs.models, ∀ g ∈ m.groups, ∀ s ∈ g.sources, s.Proper g.region

variable {config : Config α} {inputs : Inputs α} {st : Setting α} {skipped : List Nat}
  {groups : List (WorkGroup α)}

namespace Prepares

/-! ### Regions -/

theorem isSome_regionIndex? (h : Prepares config inputs st skipped groups) {m : SourceModel α}
    (hm : m ∈ inputs.models) {g : SourceGroup α} (hg : g ∈ m.groups) :
    (st.regionIndex? g.region).isSome := by
  obtain ⟨-, -, -, hregions⟩ := h.settings_eq
  rw [Setting.regionIndex?, hregions, List.isSome_idxOf?]
  exact SourceModel.mem_regions.2 ⟨m, hm, g, hg, rfl⟩

/-! ### Models -/

/-- A target with a level has probabilities if its model answers. -/
theorem answered (h : Prepares config inputs st skipped groups) {w : WorkGroup α} (hw : w ∈ groups)
    (hanswers : inputs.library.Answers st.epsilonEdges) (v : Sighting α) : w.Answered st v := by
  obtain ⟨m, hm, g, hg, hwork⟩ := h.mem_groups.1 hw
  have hworks := worksOn_of_workGroup? hwork
  intro tl htl
  obtain ⟨i, hi, rfl⟩ := List.mem_mapIdx.1 htl
  unfold WorkGroup.pnes?
  split
  · rfl
  · next target level hpair =>
    obtain ⟨rfl, -⟩ := Prod.mk.injEq .. ▸ hpair
    obtain ⟨model, hlibrary, hmodel⟩ := hworks.models _ (List.getElem_mem hi)
    obtain ⟨poes, hpoes, hlength⟩ := hanswers _ model hlibrary v.scenario
      ⟨w.targets[i].imt, level, st.truncation, st.epsilonEdges⟩ rfl
    rw [Option.isSome_map, WorkGroup.answer?_eq_some.2 ⟨model, hmodel, hpoes, hlength⟩]
    rfl

/-! ### Edges -/

/-- The sites with a grid are those whose extent is not empty. -/
theorem isSome_grids_iff (h : Prepares config inputs st skipped groups) {id : Nat} :
    st.grids[id]?.isSome ↔ ∃ near ∈ (cappedSites config inputs).toList, near.id = id ∧
      (Extent.ofSite inputs.models near).longitude?.isSome := by
  rw [Option.isSome_iff_exists]
  constructor
  · rintro ⟨g, hg⟩
    obtain ⟨_, e, -, near, hnear, hid, he, -⟩ := h.grids_eq_some.1 hg
    refine ⟨near, hnear, hid, ?_⟩
    rw [← Extent.isSome_edges?, he]
    rfl
  · rintro ⟨near, hnear, hid, hsome⟩
    obtain ⟨magnitudes, hmagnitudes, -⟩ := h.setting
    rw [← Extent.isSome_edges? _ ⟨config.distanceWidth, config.coordinateWidth⟩] at hsome
    obtain ⟨e, he⟩ := Option.isSome_iff_exists.1 hsome
    exact ⟨_, h.grids_eq_some.2 ⟨magnitudes, e, hmagnitudes, near, hnear, hid, he, rfl⟩⟩

variable [IsStrictOrderedRing α]

/-- The edges of every grid ascend along all axes. -/
theorem axes_ascend (h : Prepares config inputs st skipped groups)
    (hvalid : config.validate = .ok ()) (hfits : IndicesFit config inputs) {id : Nat} {g : Grid α}
    (hg : st.grids[id]? = some g) : ∀ p ∈ g.axes, 2 ≤ p.2.length ∧ p.2.Pairwise (· < ·) := by
  obtain ⟨magnitudes, e, hmagnitudes, site, hsite, -, he, rfl⟩ := h.grids_eq_some.1 hg
  obtain ⟨_, _, _, -, -, -, hdistance, hlongitude, hlatitude, -⟩ :=
    Extent.edges?_around (Extent.ofSite_holds inputs.models site) (hfits.extent site hsite)
      (Config.distanceWidth_pos hvalid) (Config.coordinateWidth_pos hvalid) he
  have hmagnitude :=
    snappedEdges_around (Config.magWidth_pos hvalid) (hfits.magnitude magnitudes hmagnitudes)
  have hepsilon := epsilonEdges_around (Config.truncation_pos hvalid) config.epsilonBins
  intro p hp
  simp only [SiteEdges.toGrid, Grid.axes, List.mem_cons, List.not_mem_nil, or_false] at hp
  rcases hp with rfl | rfl | rfl | rfl | rfl
  · exact ⟨hmagnitude.bins, hmagnitude.ascending⟩
  · exact ⟨hdistance.bins, hdistance.ascending⟩
  · exact ⟨hlongitude.bins, hlongitude.ascending⟩
  · exact ⟨hlatitude.bins, hlatitude.ascending⟩
  · exact ⟨hepsilon.bins, hepsilon.ascending⟩

/-- A rupture of a source within the distance of a site has bins there. -/
theorem exists_place (h : Prepares config inputs st skipped groups)
    (hvalid : config.validate = .ok ()) (hfits : IndicesFit config inputs)
    (hpositive : ∀ a b c d : α, 0 ≤ Elementary.distance a b c d) (hproper : ProperSources inputs)
    {m : SourceModel α} (hm : m ∈ inputs.models) {group : SourceGroup α} (hgroup : group ∈ m.groups)
    {s : Source α} (hs : s ∈ group.sources) {r : Rupture α} (hr : r ∈ s.ruptures) {node : Point α}
    (hnode : node ∈ s.nodes) (hsurface : r.surface = [node]) {site : Site α}
    (hsite : site ∈ (cappedSites config inputs).toList)
    (hnear : node.distance site.location ≤ site.maxDistance) {g : Grid α}
    (hg : st.grids[site.id]? = some g) :
    ∃ at_, g.place? st.regions.length ⟨r.magnitude, node.distance site.location, node.lon, node.lat,
      st.regionOf s⟩ = some at_ := by
  obtain ⟨magnitudes, e, hmagnitudes, site', hsite', hid, he, rfl⟩ := h.grids_eq_some.1 hg
  have hsame := h.eq_of_id_eq hsite' hsite hid
  subst hsame
  have hsproper := hproper m hm group hgroup s hs
  have hseen : (node.distance site'.location, node.lon, node.lat) ∈
      Extent.seenFrom inputs.models site' := by
    refine Extent.mem_seenFrom.2 ⟨m, hm, group, hgroup, s, hs, ?_⟩
    exact (Extent.mem_contributions hsproper.nodal).2 ⟨r, hr, node, hnode, hsurface, hnear, rfl⟩
  -- what holds of one place of a source holds of all ruptures of the extent
  have hall : ∀ x ∈ Extent.seenFrom inputs.models site',
      0 ≤ x.1 ∧ -180 ≤ x.2.1 ∧ x.2.1 ≤ 180 := by
    intro x hx
    obtain ⟨m, hm, group, hgroup, s, hs, hx⟩ := Extent.mem_seenFrom.1 hx
    have hsproper := hproper m hm group hgroup s hs
    obtain ⟨r, -, node, hnode, -, -, rfl⟩ := (Extent.mem_contributions hsproper.nodal).1 hx
    exact ⟨hpositive _ _ _ _, hsproper.longitude node hnode⟩
  obtain ⟨⟨d, hd⟩, ⟨lon, hlon⟩, ⟨lat, hlat⟩⟩ :=
    Extent.exists_locate (Extent.ofSite_holds inputs.models site')
      (fun x hx => (hall x hx).2) (fun x hx => (hall x hx).1) (hfits.extent site' hsite')
      (Config.distanceWidth_pos hvalid) (Config.coordinateWidth_pos hvalid) he hseen
  have hrange := SourceModel.magnitudes_spec hmagnitudes hm hgroup hs
  have hmagnitude := Source.mem_magnitudes hsproper.nodal hsproper.made hr
  obtain ⟨i, hi⟩ := (snappedEdges_around (Config.magWidth_pos hvalid)
    (hfits.magnitude magnitudes hmagnitudes)).exists_locate
      ⟨hrange.1.trans hmagnitude.1, hmagnitude.2.trans hrange.2⟩
  have hregion : (st.regionIndex? s.region).isSome := by
    rw [hsproper.region]
    exact h.isSome_regionIndex? hm hgroup
  exact ⟨(i, d, lon, lat, st.regionOf s),
    Grid.place?_eq_some.2 ⟨hi, hd, hlon, hlat, Setting.regionOf_lt hregion, rfl⟩⟩

/-! ### Tasks -/

/-- The work on all parts of sources in reach succeeds if the models answer what is asked. -/
theorem allFeasible_of_answered (h : Prepares config inputs st skipped groups)
    (hvalid : config.validate = .ok ()) (hfits : IndicesFit config inputs)
    (hpositive : ∀ a b c d : α, 0 ≤ Elementary.distance a b c d) (hproper : ProperSources inputs)
    (hanswered : ∀ w ∈ groups, ∀ s, ∀ v ∈ w.sightings st s, w.Answered st v) :
    AllFeasible st groups := by
  intro w hw part hpart
  obtain ⟨m, hm, g, hg, hwork⟩ := h.mem_groups.1 hw
  have hsources := (worksOn_of_workGroup? hwork).sources
  refine ⟨?_, hanswered w hw part, ?_⟩
  · obtain ⟨s, hs, hsplit⟩ := List.mem_flatMap.1 (List.mem_of_mem_filter hpart)
    rw [(Source.of_mem_split hsplit).1, (hproper m hm g hg s (hsources ▸ hs)).region]
    exact h.isSome_regionIndex? hm hg
  · intro v hv tl _ _ grid hgrid
    -- the part is seen as its source is, and the edges are laid around sources
    have hseen : v ∈ w.sources.flatMap (w.sightings st) := by
      rw [← WorkGroup.flatMap_sightings_parts]
      exact List.mem_flatMap.2 ⟨part, hpart, hv⟩
    obtain ⟨s, hs, hv⟩ := List.mem_flatMap.1 hseen
    have hnodal := (hproper m hm g hg s (hsources ▸ hs)).nodal
    obtain ⟨r, hr, node, hnode, hsurface, site, hsite, hnear, levels, -, rfl⟩ :=
      (WorkGroup.mem_sightings_iff hnodal).1 hv
    have hcapped := (h.mem_sites.1 (List.mem_of_mem_filter hsite)).1
    exact h.exists_place hvalid hfits hpositive hproper hm hg (hsources ▸ hs) hr hnode hsurface
      hcapped hnear hgrid

/-- The work on all parts of sources in reach succeeds. -/
theorem allFeasible (h : Prepares config inputs st skipped groups)
    (hvalid : config.validate = .ok ()) (hfits : IndicesFit config inputs)
    (hpositive : ∀ a b c d : α, 0 ≤ Elementary.distance a b c d) (hproper : ProperSources inputs)
    (hanswers : inputs.library.Answers st.epsilonEdges) : AllFeasible st groups :=
  h.allFeasible_of_answered hvalid hfits hpositive hproper fun _ hw _ v _ =>
    h.answered hw hanswers v

end Prepares

/-! ### A sample -/

open Sample in
theorem Sample.properSources : ProperSources Sample.inputs := by
  intro m hm g hg s hs
  obtain rfl := List.mem_singleton.1 hm
  obtain rfl := List.mem_singleton.1 hg
  have hmade : Sample.recurrence.fault? = none := Option.isNone_iff_eq_none.1 (by decide +kernel)
  rcases List.mem_cons.1 hs with rfl | hs
  · refine ⟨trivial, hmade, rfl, fun node hnode => ?_⟩
    obtain rfl := List.mem_singleton.1 hnode
    norm_num
  · obtain rfl := List.mem_singleton.1 hs
    refine ⟨trivial, hmade, rfl, fun node hnode => ?_⟩
    rcases List.mem_cons.1 hnode with rfl | hnode
    · norm_num
    · obtain rfl := List.mem_singleton.1 hnode
      norm_num

open Sample in
theorem Sample.indicesFit : IndicesFit Sample.config Sample.inputs := by
  refine ⟨by decide +kernel, fun site hsite => ?_⟩
  obtain rfl := List.mem_singleton.1 hsite
  exact ⟨by decide +kernel, by decide +kernel, by decide +kernel⟩

open Sample in
theorem Sample.library_answers (edges : List ℚ) : Sample.inputs.library.Answers edges := by
  intro name model hget s q hq
  have hmodel : model = ⟨"G", fun _ q =>
      .ok (List.replicate (q.epsilonEdges.length - 1) (1 / 2))⟩ := by
    simp only [Sample.inputs, ModelLibrary.ofList, ModelLibrary.get, List.foldl_cons,
      List.foldl_nil, Std.TreeMap.getElem?_insert, Std.TreeMap.getElem?_emptyc] at hget
    split at hget
    · next found hfound =>
      split at hfound
      · cases hfound
        cases hget
        rfl
      · cases hfound
    · cases hget
  rw [hmodel, ← hq]
  exact ⟨_, rfl, List.length_replicate⟩

/-! ### All tasks -/

variable [IsStrictOrderedRing α] [BitPattern α]

/-- Planned tasks cannot fail on geometry or shape. If the sources are proper points and areas, the
indices of the edges fit into words, and the ground-motion models answer, then every grid of a plan
is valid, every task succeeds, and the results of the tasks can be merged in every order. -/
theorem planned_tasks_succeed {x : Executor} {workers : Nat} {c : Calculation α} {p : Plan α}
    (hc : withExecutor config x workers = .ok c) (hplan : c.plan inputs = .ok p)
    (hpositive : ∀ a b c d : α, 0 ≤ Elementary.distance a b c d) (hproper : ProperSources inputs)
    (hfits : IndicesFit config inputs) (hanswers : inputs.library.Answers p.setting.epsilonEdges) :
    (∀ (site : Nat) (g : Grid α), p.setting.grids[site]? = some g → g.validate = .ok ()) ∧
    ∃ parts, p.tasks.mapM Task.compute = .ok parts ∧ ∀ parts', parts'.Perm parts →
      ∃ done, runInTurn Except.ok Reduction.merge parts' ⟨Reduction.empty, none⟩ =
        (⟨done, none⟩ : Controller (Reduction α) (Error α)) := by
  obtain ⟨hvalid, -, rfl⟩ := withExecutor_eq_ok.1 hc
  obtain ⟨st, skipped, groups, hprepares, rfl⟩ := plan_eq_ok.1 hplan
  have hfeasible := (WorkGroup.feasible_tasks_iff (config.taskCount workers)
    config.pointFactor).2 (hprepares.allFeasible hvalid hfits hpositive hproper hanswers)
  have hcompute : ∀ t ∈ WorkGroup.tasks st (config.taskCount workers) config.pointFactor groups,
      ∃ part, t.compute = .ok part ∧ part.results.Gathers st t.contributions := by
    intro t ht
    have hst := WorkGroup.setting_of_mem_tasks ht
    obtain ⟨part, hpart, hgathers⟩ :=
      Task.compute_gathers (hst ▸ hprepares.sharesEpsilon) (hfeasible t ht)
    exact ⟨part, hpart, hst ▸ hgathers⟩
  refine ⟨fun site g hg => Grid.validate_eq_ok (hprepares.axes_ascend hvalid hfits hg), ?_⟩
  obtain ⟨parts, hparts⟩ := Fallible.exists_mapM_eq_ok_iff.2 fun t ht =>
    (hcompute t ht).imp fun part h => h.1
  refine ⟨parts, hparts, fun parts' hperm => ?_⟩
  have hparts' : ∀ part ∈ parts', ∃ C, part.results.Gathers st C := by
    intro part hpart
    obtain ⟨t, ht, hcomputed⟩ := Fallible.exists_of_mem_mapM hparts (hperm.mem_iff.1 hpart)
    obtain ⟨part', hpart', hgathers⟩ := hcompute t ht
    rw [hcomputed] at hpart'
    cases hpart'
    exact ⟨_, hgathers⟩
  exact Reduction.exists_merge hparts'

open Sample in
theorem planned_tasks_succeed_sample : ∃ p, Sample.calculation.plan Sample.inputs = .ok p ∧
    p.tasks ≠ [] ∧ p.setting.grids[0]?.isSome ∧
    (∀ (site : Nat) (g : Grid ℚ), p.setting.grids[site]? = some g → g.validate = .ok ()) ∧
    ∃ parts, p.tasks.mapM Task.compute = .ok parts ∧ ∀ parts', parts'.Perm parts →
      ∃ done, runInTurn Except.ok Reduction.merge parts' ⟨Reduction.empty, none⟩ =
        (⟨done, none⟩ : Controller (Reduction ℚ) (Error ℚ)) := by
  have hpositive : ∀ a b c d : ℚ, 0 ≤ Elementary.distance a b c d :=
    fun a b c d => add_nonneg (abs_nonneg _) (abs_nonneg _)
  have hplan : (Sample.calculation.plan Sample.inputs).toOption.any fun p =>
      !p.tasks.isEmpty && p.setting.grids[0]?.isSome := by
    decide +kernel
  cases hp : Sample.calculation.plan Sample.inputs with
  | error e =>
    rw [hp] at hplan
    cases hplan
  | ok p =>
    rw [hp] at hplan
    obtain ⟨htasks, hgrid⟩ := (Bool.and_eq_true _ _).mp hplan
    refine ⟨p, rfl, by simpa using htasks, hgrid, ?_⟩
    exact planned_tasks_succeed Sample.withExecutor_config hp hpositive Sample.properSources
      Sample.indicesFit (Sample.library_answers _)

end Calculation

end

end SeismicHazard
