import SeismicHazard.Proofs.Calculation.Run

/-!
# The columns that a task collects

A task collects what plain loops over its sources, their ruptures and the sites find that ask a model
anew for every target, and every row of the columns is a sighting.

* `Task.loops`: the loops.
* `Task.collect_eq_loops`: what is remembered makes no difference.
* `Task.sightingsAt_ne_nil_iff`: the sites that something is collected for.
* `Task.Tabulates`: columns with the coordinates of sightings and with what the models answer.
* `Task.dataAt_tabulates`: such are the columns of the sightings at a site.
* `Task.collect_tabulates`: all of it together.
-/

namespace SeismicHazard

open Std (TreeMap)

namespace Task

variable {α : Type} [Scalar α] [Elementary α] [TotalOrder α]

/-- The loops of a task. Every model is asked anew for every target. -/
def loops (t : Task α) : Except (Error α) (TreeMap ℕ (SiteData α)) := do
  let mut found := ∅
  for source in t.work.sources do
    let some region := t.setting.regionIndex? source.region
      | throw (.sourceRegion source.id source.region)
    for r in source.ruptures do
      for site in t.sitesOf source do
        if let some s := Scenario.ofRupture? r site then
          if let some levels := t.work.levels[site.id]? then
            let mut data := (found.getD site.id (.ofTargets t.work.targets.length)).push
              ⟨r.magnitude, s.horizontal, s.node.lon, s.node.lat, region⟩
            for (target, i) in t.work.targets.zipIdx do
              match levels[i]?.join with
              | none => data := data.extend i (List.replicate t.setting.epsilonBins 1)
              | some level => data := data.extend i (← t.pnesAt source r s target level)
            found := found.insert site.id data
  return found

/-- The columns of a site with the given levels: the coordinates of the given sightings in order, and
for each target and sighting as many probabilities as there are epsilon bins. -/
structure Tabulates (t : Task α) (levels : List (Option α)) (vs : List (Sighting α))
    (d : SiteData α) : Prop where
  magnitudes : d.magnitudes = vs.map (·.rupture.magnitude)
  distances : d.distances = vs.map (·.scenario.horizontal)
  longitudes : d.longitudes = vs.map (·.scenario.node.lon)
  latitudes : d.latitudes = vs.map (·.scenario.node.lat)
  regions : d.regions = vs.map (·.region)
  targets : d.pnes.length = t.work.targets.length
  length_pnes : ∀ pnes ∈ d.pnes, pnes.length = vs.length * t.setting.epsilonBins
  /-- Without a level there is no exceedance. -/
  unleveled : ∀ (q : ℕ) (pnes : List α), d.pnes[q]? = some pnes → levels[q]?.join = none →
    ∀ r < vs.length, ∀ e < t.setting.epsilonBins, pnes[r * t.setting.epsilonBins + e]? = some 1
  /-- At a level the probabilities are those of the model of the target. -/
  leveled : ∀ (q : ℕ) pnes target level, d.pnes[q]? = some pnes → t.work.targets[q]? = some target →
    levels[q]?.join = some level → ∀ (r : ℕ) (v : Sighting α), vs[r]? = some v →
    ∃ model poes, t.work.models.get target.model = .ok model ∧
      model.exceedance v.scenario (t.query target level) = .ok poes ∧
      poes.length = t.setting.epsilonBins ∧
      ∀ e < t.setting.epsilonBins, pnes[r * t.setting.epsilonBins + e]? =
        poes[e]?.map (v.rupture.nonExceedance · t.setting.time)

omit [Scalar α] [Elementary α] [TotalOrder α] in
theorem zipIdx_leveled (t : Task α) (levels : List (Option α)) :
    (t.leveled levels).zipIdx =
      t.work.targets.zipIdx.map fun x => ((x.1, levels[x.2]?.join), x.2) := by
  apply List.ext_getElem
  · simp [leveled]
  · intro i _ _
    simp [leveled]

variable [Std.LawfulEqCmp (TotalOrder.cmp : α → α → Ordering)]

/-- What is remembered makes no difference, not even to the errors. -/
theorem collect_eq_loops (t : Task α) : t.collect = t.loops := by
  unfold loops
  dsimp only
  rw [Fallible.forIn_eq_foldlM (g := t.addSource), bind_pure, collect]
  intro source _ found
  cases hregion : t.setting.regionIndex? source.region with
  | none =>
    unfold addSource
    rw [hregion]
    rfl
  | some region =>
    rw [addSource_of_region hregion]
    dsimp only
    rw [Fallible.forIn_eq_foldlM (g := fun found r =>
      (t.sitesOf source).foldlM (t.addRupture source region r) found)]
    · rfl
    intro r _ found
    rw [Fallible.forIn_eq_foldlM (g := t.addRupture source region r)]
    · rfl
    intro site _ found
    unfold addRupture
    cases Scenario.ofRupture? r site with
    | none => rfl
    | some s =>
      cases t.work.levels[site.id]? with
      | none => rfl
      | some levels =>
        have hempty : t.Remembers source r s [] := fun m hm => absurd hm List.not_mem_nil
        dsimp only
        rw [addPnes_eq hempty, zipIdx_leveled, List.foldlM_map,
          Fallible.forIn_eq_foldlM (g := fun data x =>
            t.addFresh source r s data ((x.1, levels[x.2]?.join), x.2)), bind_assoc]
        · rfl
        rintro ⟨target, i⟩ _ data
        dsimp only
        cases levels[i]?.join with
        | none => rfl
        | some level =>
          rw [addFresh, bind_assoc]
          rfl

omit [Std.LawfulEqCmp (TotalOrder.cmp : α → α → Ordering)] in
/-- The sites that some rupture counts for. -/
theorem sightingsAt_ne_nil_iff {t : Task α} {id : ℕ} : t.sightingsAt id ≠ [] ↔
    ∃ site ∈ t.setting.sites.toList, site.id = id ∧ id ∈ t.setting.grids ∧ id ∈ t.work.levels ∧
      ∃ source ∈ t.work.sources, source.minDistance site.location ≤ site.maxDistance ∧
        ∃ r ∈ source.ruptures, (Scenario.ofRupture? r site).isSome := by
  constructor
  · intro h
    obtain ⟨v, hv⟩ := List.exists_mem_of_ne_nil _ h
    obtain ⟨⟨source, hsource, hseen⟩, rfl⟩ := mem_sightingsAt.1 hv
    obtain ⟨r, hr, site, hsite, hsighting⟩ := WorkGroup.mem_sightings.1 hseen
    obtain ⟨-, rfl, hscenario, hlevels, -⟩ := WorkGroup.eq_of_mem_sighting? hsighting
    obtain ⟨hreach, hgrid⟩ := List.mem_filter.1 hsite
    obtain ⟨hmem, hnear⟩ := List.mem_filter.1 hreach
    refine ⟨v.site, hmem, rfl, hgrid, ?_, source, hsource, of_decide_eq_true hnear, r, hr, ?_⟩
    · exact TreeMap.mem_iff_isSome_getElem?.2 (by rw [hlevels]; rfl)
    · rw [hscenario]
      rfl
  · rintro ⟨site, hmem, rfl, hgrid, hlevels, source, hsource, hnear, r, hr, hscenario⟩
    obtain ⟨s, hs⟩ := Option.isSome_iff_exists.1 hscenario
    obtain ⟨levels, hl⟩ := Option.isSome_iff_exists.1 (TreeMap.mem_iff_isSome_getElem?.1 hlevels)
    have hsite : site ∈ t.setting.sitesOf source :=
      List.mem_filter.2 ⟨List.mem_filter.2 ⟨hmem, decide_eq_true hnear⟩, hgrid⟩
    have hsighting : t.work.sighting? (t.setting.regionOf source) r site =
        some ⟨r, site, s, levels, t.setting.regionOf source⟩ := by
      rw [WorkGroup.sighting?, hs, hl]
    have hseen := WorkGroup.mem_sightings.2 ⟨r, hr, site, hsite, hsighting⟩
    exact List.ne_nil_of_mem (mem_sightingsAt.2 ⟨⟨source, hsource, hseen⟩, rfl⟩)

omit [Std.LawfulEqCmp (TotalOrder.cmp : α → α → Ordering)] in
/-- A column is what the models answer about the sightings, one after the other. -/
theorem exists_target_of_column {t : Task α} {id q : ℕ} {levels : List (Option α)}
    (hlevels : t.work.levels[id]? = some levels) {pnes : List α}
    (hpnes : (t.dataAt id).pnes[q]? = some pnes) :
    ∃ target, t.work.targets[q]? = some target ∧ pnes = (t.sightingsAt id).flatMap fun v =>
      t.work.pnes t.setting v (target, levels[q]?.join) := by
  rw [dataAt, WorkGroup.columns, List.getElem?_mapIdx, Option.map_eq_some_iff] at hpnes
  obtain ⟨target, htarget, rfl⟩ := hpnes
  refine ⟨target, htarget, List.flatMap_congr fun v hv => ?_⟩
  rw [levels_eq_of_mem_sightingsAt hlevels hv]

omit [TotalOrder α] [Std.LawfulEqCmp (TotalOrder.cmp : α → α → Ordering)] in
/-- An answered sighting has probabilities for every target. -/
theorem exists_pnes?_of_answered {t : Task α} {v : Sighting α} (h : t.work.Answered t.setting v)
    {q : ℕ} {target : Target α} (htarget : t.work.targets[q]? = some target) :
    ∃ pnes, t.work.pnes? t.setting v.rupture v.scenario (target, v.levels[q]?.join) =
      some pnes := by
  refine Option.isSome_iff_exists.1 (h _ (List.mem_iff_getElem?.2 ⟨q, ?_⟩))
  rw [WorkGroup.leveled, List.getElem?_mapIdx, htarget]
  rfl

omit [Std.LawfulEqCmp (TotalOrder.cmp : α → α → Ordering)] in
/-- The data of a site whose sightings are all answered. -/
theorem dataAt_tabulates {t : Task α} {id : ℕ} {levels : List (Option α)}
    (hlevels : t.work.levels[id]? = some levels)
    (hanswered : ∀ v ∈ t.sightingsAt id, t.work.Answered t.setting v) :
    t.Tabulates levels (t.sightingsAt id) (t.dataAt id) := by
  have hasked : ∀ (q : ℕ) target, t.work.targets[q]? = some target → ∀ v ∈ t.sightingsAt id,
      ∃ pnes, t.work.pnes? t.setting v.rupture v.scenario (target, levels[q]?.join) = some pnes := by
    intro q target htarget v hv
    rw [← levels_eq_of_mem_sightingsAt hlevels hv]
    exact exists_pnes?_of_answered (hanswered v hv) htarget
  have hlength : ∀ (q : ℕ) target, t.work.targets[q]? = some target → ∀ v ∈ t.sightingsAt id,
      (t.work.pnes t.setting v (target, levels[q]?.join)).length = t.setting.epsilonBins := by
    intro q target htarget v hv
    obtain ⟨pnes, hpnes⟩ := hasked q target htarget v hv
    rw [WorkGroup.pnes, hpnes, Option.getD_some]
    exact WorkGroup.length_pnes? hpnes
  refine ⟨rfl, rfl, rfl, rfl, rfl, ?_, ?_, ?_, ?_⟩
  · simp [dataAt, WorkGroup.columns]
  · intro pnes hpnes
    obtain ⟨q, hq⟩ := List.mem_iff_getElem?.1 hpnes
    obtain ⟨target, htarget, rfl⟩ := exists_target_of_column hlevels hq
    rw [List.length_flatMap, List.map_congr_left (hlength q target htarget), List.map_const',
      List.sum_replicate_nat]
  · intro q pnes hpnes hnone r hr e he
    obtain ⟨target, htarget, rfl⟩ := exists_target_of_column hlevels hpnes
    rw [Tensor.getElem?_flatMap_of_length (hlength q target htarget) r he,
      List.getElem?_eq_getElem hr, hnone]
    exact List.getElem?_replicate_of_lt he
  · intro q pnes target level hpnes htarget hlevel r v hv
    obtain ⟨_, htarget', rfl⟩ := exists_target_of_column hlevels hpnes
    rw [htarget] at htarget'
    cases htarget'
    obtain ⟨pnes, hpnes'⟩ := hasked q target htarget v (List.mem_of_getElem? hv)
    rw [hlevel] at hpnes'
    obtain ⟨poes, hpoes, hmap⟩ := Option.map_eq_some_iff.1 hpnes'
    obtain ⟨model, hmodel, hexceedance, hbins⟩ := WorkGroup.answer?_eq_some.1 hpoes
    refine ⟨model, poes, hmodel, hexceedance, hbins, fun e he => ?_⟩
    rw [Tensor.getElem?_flatMap_of_length (hlength q target htarget) r he, hv, Option.bind_some,
      hlevel, WorkGroup.pnes, hpnes', Option.getD_some, ← hmap, List.getElem?_map]

/-- A task collects what the plain loops do, with the same errors. On success a site is present exactly
if it has a grid and levels and some rupture of a source that may affect it counts there. Its
columns have one row for every such rupture, in the order of the loops, and each target has a column of
its own with the probabilities of no exceedance for each row and epsilon bin. -/
theorem collect_tabulates (t : Task α) : t.collect = t.loops ∧
    ∀ data, t.collect = .ok data → ∀ id,
      (id ∈ data ↔ ∃ site ∈ t.setting.sites.toList, site.id = id ∧ id ∈ t.setting.grids ∧
        id ∈ t.work.levels ∧ ∃ source ∈ t.work.sources,
          source.minDistance site.location ≤ site.maxDistance ∧
          ∃ r ∈ source.ruptures, (Scenario.ofRupture? r site).isSome) ∧
      ∀ d, data[id]? = some d → 0 < (t.sightingsAt id).length ∧
        ∃ levels, t.work.levels[id]? = some levels ∧ t.Tabulates levels (t.sightingsAt id) d := by
  refine ⟨t.collect_eq_loops, fun data hdata id => ⟨?_, fun d hd => ?_⟩⟩
  · rw [← sightingsAt_ne_nil_iff, TreeMap.mem_iff_isSome_getElem?, getElem?_collect hdata]
    by_cases hnil : t.sightingsAt id = []
    · simp [hnil]
    · simp [hnil]
  · rw [getElem?_collect hdata, Option.ite_none_left_eq_some, Option.some.injEq] at hd
    obtain ⟨hne, rfl⟩ := hd
    obtain ⟨v, hv⟩ := List.exists_mem_of_ne_nil _ hne
    have hlevels := (levels_of_mem_sightingsAt hv).2
    have hanswered : ∀ v ∈ t.sightingsAt id, t.work.Answered t.setting v := by
      intro v hv
      obtain ⟨⟨source, hsource, hseen⟩, -⟩ := mem_sightingsAt.1 hv
      exact ((collect_eq_ok.1 hdata).1 source hsource).2 v hseen
    exact ⟨List.length_pos_iff.2 hne, v.levels, hlevels, dataAt_tabulates hlevels hanswered⟩

open Calculation.Sample in
/-- The site without levels is left out. The two targets that have everything in common share what the
model answers, and the one without a level has ones. -/
theorem collect_tabulates_shared : task.collect = task.loops ∧
    ∃ data d, task.collect = .ok data ∧ 1 ∉ data ∧ data[0]? = some d ∧
      d.pnes = [[4 / 5, 4 / 5, 40 / 41, 40 / 41], [4 / 5, 4 / 5, 40 / 41, 40 / 41], [1, 1, 1, 1]] ∧
      0 < (task.sightingsAt 0).length ∧
      ∃ levels, task.work.levels[0]? = some levels ∧
        task.Tabulates levels (task.sightingsAt 0) d := by
  have h := collect_tabulates task
  have hcollect : task.collect.toOption.any fun data =>
      !data.contains 1 && data[0]?.any fun d => d.pnes == [[4 / 5, 4 / 5, 40 / 41, 40 / 41],
        [4 / 5, 4 / 5, 40 / 41, 40 / 41], [1, 1, 1, 1]] := by decide +kernel
  obtain ⟨data, hdata, hfound⟩ := (Option.any_eq_true _ _).1 hcollect
  rw [Bool.and_eq_true, Bool.not_eq_true', Option.any_eq_true] at hfound
  obtain ⟨habsent, d, hd, hpnes⟩ := hfound
  have hdata := Fallible.toOption_eq_some.1 hdata
  refine ⟨h.1, data, d, hdata, fun hmem => ?_, hd, beq_iff_eq.1 hpnes, (h.2 data hdata 0).2 d hd⟩
  rw [TreeMap.mem_iff_contains, habsent] at hmem
  cases hmem

end Task

end SeismicHazard
