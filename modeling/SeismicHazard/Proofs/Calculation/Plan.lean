import Mathlib.Algebra.Order.Floor.Ring
import SeismicHazard.Calculation
import SeismicHazard.Proofs.Fallible
import SeismicHazard.Proofs.Grid.Table
import SeismicHazard.Proofs.Number.Exact

/-!
# What a plan consists of

A plan is the cut of what a configuration prepares: the setting of all tasks and the work on the
groups of sources. What is prepared does not depend on how it is cut.

* `Calculation.withExecutor_eq_ok`: which configurations are accepted.
* `Calculation.Prepares`: the setting, the skipped sites and the work that a configuration prepares.
* `Calculation.plan_eq_ok`: the plan is a cut of them.
* `Calculation.Prepares.exists_settingFor`: what its setting is.
* `Calculation.Prepares.grids_eq_some`: the grids of the setting.
* `Calculation.workGroup_eq_ok`: the work on one group of sources.
-/

namespace SeismicHazard.Calculation

section

variable {α : Type} [Scalar α]

theorem withExecutor_eq_ok {config : Config α} {x : Executor} {workers : Nat} {c : Calculation α} :
    withExecutor config x workers = .ok c ↔
      config.validate = .ok () ∧ config.validateRequest = .ok () ∧ c = ⟨config, x, workers⟩ := by
  simp only [withExecutor, Fallible.bind_eq_ok, Fallible.mapError_eq_ok]
  constructor
  · rintro ⟨⟨⟩, hvalid, ⟨⟩, hrequest, h⟩
    cases h
    exact ⟨hvalid, hrequest, rfl⟩
  · rintro ⟨hvalid, hrequest, rfl⟩
    exact ⟨(), hvalid, (), hrequest, rfl⟩

theorem withExecutor_of_toBool {config : Config α} {x : Executor} {workers : Nat}
    (h : (withExecutor config x workers).toBool = true) :
    withExecutor config x workers = .ok ⟨config, x, workers⟩ := by
  obtain ⟨c, hc⟩ := Fallible.exists_of_toBool h
  obtain ⟨-, -, rfl⟩ := withExecutor_eq_ok.1 hc
  exact hc

/-! ### The work -/

theorem workGroup_eq_ok {config : Config α} {inputs : Inputs α} {sites : Sites α}
    {m : SourceModel α} {g : SourceGroup α} {x : Option (WorkGroup α)} :
    workGroup config inputs sites m g = .ok x ↔
      ∃ byModel, inputs.tree.byGroundMotion g.region m.ordinal = .ok byModel ∧
        ((byModel.isEmpty ∧ x = none) ∨ (¬ byModel.isEmpty ∧
          ∃ models, RegionModels.make g.region byModel.keys inputs.library = .ok models ∧
            let targets := Target.all byModel config.measures config.thresholds
            x = some ⟨m.ordinal, g.id, g.sources, models, targets,
              Target.levels config.request.levels inputs.curves sites targets⟩)) := by
  rw [workGroup, Fallible.bind_eq_ok]
  refine exists_congr fun byModel => and_congr_right fun _ => ?_
  split
  · next hempty =>
    constructor
    · intro h
      cases h
      exact Or.inl ⟨hempty, rfl⟩
    · rintro (⟨-, rfl⟩ | ⟨hne, -⟩)
      · rfl
      · exact absurd hempty hne
  · next hne =>
    rw [Fallible.bind_eq_ok]
    constructor
    · rintro ⟨models, hmodels, h⟩
      cases h
      exact Or.inr ⟨hne, models, hmodels, rfl⟩
    · rintro (⟨hempty, -⟩ | ⟨-, models, hmodels, rfl⟩)
      · exact absurd hempty hne
      · exact ⟨models, hmodels, rfl⟩

end

section

variable {α : Type} [Field α] [LinearOrder α] [FloorRing α]

/-- The work on a group of sources, if there is any. -/
def workGroup? (config : Config α) (inputs : Inputs α) (sites : Sites α) (m : SourceModel α)
    (g : SourceGroup α) : Option (WorkGroup α) :=
  (workGroup config inputs sites m g).toOption.join

theorem workGroups_eq_ok {config : Config α} {inputs : Inputs α} {sites : Sites α}
    {groups : List (WorkGroup α)} : workGroups config inputs sites = .ok groups ↔
      (∀ m ∈ inputs.models, ∀ g ∈ m.groups, ∃ x, workGroup config inputs sites m g = .ok x) ∧
      groups = inputs.models.flatMap fun m =>
        m.groups.filterMap (workGroup? config inputs sites m) := by
  have hgroup : ∀ m : SourceModel α, ∀ g ∈ m.groups, ∀ x,
      workGroup config inputs sites m g = .ok x ↔
        (∃ x, workGroup config inputs sites m g = .ok x) ∧
          x = workGroup? config inputs sites m g := by
    intro m g _ x
    unfold workGroup?
    cases workGroup config inputs sites m g with
    | error e => simp
    | ok y => simp [Except.toOption, eq_comm]
  have hmodel : ∀ m ∈ inputs.models, ∀ xs,
      m.groups.mapM (workGroup config inputs sites m) = .ok xs ↔
        (∀ g ∈ m.groups, ∃ x, workGroup config inputs sites m g = .ok x) ∧
          xs = m.groups.map (workGroup? config inputs sites m) :=
    fun m _ xs => Fallible.mapM_eq_ok_iff (hgroup m)
  have hflat : (inputs.models.map fun m => m.groups.map
      (workGroup? config inputs sites m)).flatten.filterMap id =
      inputs.models.flatMap fun m => m.groups.filterMap (workGroup? config inputs sites m) := by
    rw [List.filterMap_flatten, List.map_map, ← List.flatMap_def]
    refine List.flatMap_congr fun m _ => ?_
    rw [Function.comp_apply, List.filterMap_map]
    rfl
  simp only [workGroups, Fallible.bind_eq_ok, Fallible.mapM_eq_ok_iff hmodel, ← hflat]
  constructor
  · rintro ⟨_, ⟨h, rfl⟩, hgroups⟩
    cases hgroups
    exact ⟨h, rfl⟩
  · rintro ⟨h, rfl⟩
    exact ⟨_, ⟨h, rfl⟩, rfl⟩

variable [Elementary α]

/-! ### The setting -/

/-- The sites with their integration distances capped. -/
def cappedSites (config : Config α) (inputs : Inputs α) : Sites α :=
  ⟨inputs.sites.toList.map (capped config.maxDistance)⟩

omit [Elementary α] in
theorem ids_cappedSites (config : Config α) (inputs : Inputs α) :
    (cappedSites config inputs).ids = inputs.sites.ids := by
  rw [Sites.ids, cappedSites, List.map_map]
  rfl

/-- The grids of the sites that ruptures count for. -/
def gridTable (config : Config α) (inputs : Inputs α) (magnitudes : Span α) : GridTable α :=
  gridsOf config inputs.models (cappedSites config inputs)
    (snappedEdges magnitudes.lo magnitudes.hi config.magWidth)
    (epsilonEdges config.truncation config.epsilonBins)

/-- What the tasks share. -/
def settingFor (config : Config α) (inputs : Inputs α) (magnitudes : Span α) : Setting α where
  sites := (cappedSites config inputs).filter fun s =>
    (gridTable config inputs magnitudes).contains s.id
  regions := SourceModel.regions inputs.models
  grids := gridTable config inputs magnitudes
  truncation := config.truncation
  time := config.time
  epsilonEdges := epsilonEdges config.truncation config.epsilonBins
  fixedLevels := config.hasLevels
  marginals := config.marginals

/-- The sites that no rupture counts for. -/
def skippedSites (config : Config α) (inputs : Inputs α) (magnitudes : Span α) : List Nat :=
  (cappedSites config inputs).ids.filter fun id =>
    !(gridTable config inputs magnitudes).contains id

/-- There is a setting if the sites make a collection. -/
theorem settingOf_eq_ok {config : Config α} {inputs : Inputs α} {magnitudes : Span α}
    {x : Setting α × List Nat} : settingOf config inputs magnitudes = .ok x ↔
      ((cappedSites config inputs).ids.Nodup ∧
        ∀ site ∈ (cappedSites config inputs).toList, 0 < site.maxDistance) ∧
      x = (settingFor config inputs magnitudes, skippedSites config inputs magnitudes) := by
  simp only [settingOf, Fallible.bind_eq_ok, Sites.ofList_eq_ok, Scalar.isPositive_iff]
  constructor
  · rintro ⟨sites, ⟨hsites, rfl⟩, h⟩
    cases h
    exact ⟨hsites, rfl⟩
  · rintro ⟨hsites, rfl⟩
    exact ⟨_, ⟨hsites, rfl⟩, rfl⟩

/-! ### The plan -/

/-- What a configuration prepares, before it is cut into tasks. -/
structure Prepares (config : Config α) (inputs : Inputs α) (st : Setting α) (skipped : List Nat)
    (groups : List (WorkGroup α)) : Prop where
  reachable : inputs.tree.checkReachable inputs.models inputs.curves config.measures
    config.request.poes = .ok ()
  setting : ∃ magnitudes, SourceModel.magnitudes inputs.models = some magnitudes ∧
    settingOf config inputs magnitudes = .ok (st, skipped)
  groups : workGroups config inputs st.sites = .ok groups

/-- A plan is a cut of what the configuration prepares. -/
theorem plan_eq_ok {c : Calculation α} {inputs : Inputs α} {p : Plan α} :
    c.plan inputs = .ok p ↔ ∃ st skipped groups, Prepares c.config inputs st skipped groups ∧
      p = ⟨WorkGroup.tasks st (c.config.taskCount c.workers) c.config.pointFactor groups, st,
        skipped⟩ := by
  rw [plan, Fallible.bind_eq_ok]
  constructor
  · rintro ⟨⟨⟩, hreachable, h⟩
    split at h
    · cases h
    · next magnitudes hmagnitudes =>
      obtain ⟨⟨st, skipped⟩, hsetting, h⟩ := Fallible.bind_eq_ok.1 h
      obtain ⟨groups, hgroups, h⟩ := Fallible.bind_eq_ok.1 h
      cases h
      exact ⟨st, skipped, groups, ⟨hreachable, ⟨magnitudes, hmagnitudes, hsetting⟩, hgroups⟩, rfl⟩
  · rintro ⟨st, skipped, groups, ⟨hreachable, ⟨magnitudes, hmagnitudes, hsetting⟩, hgroups⟩, rfl⟩
    refine ⟨(), hreachable, ?_⟩
    simp only [hmagnitudes]
    exact Fallible.bind_eq_ok.2 ⟨_, hsetting, Fallible.bind_eq_ok.2 ⟨_, hgroups, rfl⟩⟩

namespace Prepares

variable {config : Config α} {inputs : Inputs α} {st st' : Setting α} {skipped skipped' : List Nat}
  {groups groups' : List (WorkGroup α)}

/-- A configuration prepares one thing only. -/
theorem unique (h : Prepares config inputs st skipped groups)
    (h' : Prepares config inputs st' skipped' groups') :
    st = st' ∧ skipped = skipped' ∧ groups = groups' := by
  obtain ⟨magnitudes, hmagnitudes, hsetting⟩ := h.setting
  obtain ⟨magnitudes', hmagnitudes', hsetting'⟩ := h'.setting
  rw [hmagnitudes] at hmagnitudes'
  cases hmagnitudes'
  rw [hsetting] at hsetting'
  cases hsetting'
  have hgroups := h.groups
  rw [h'.groups] at hgroups
  cases hgroups
  exact ⟨rfl, rfl, rfl⟩

/-- The setting is that of the magnitudes of all sources, for sites without a repeated id. -/
theorem exists_settingFor (h : Prepares config inputs st skipped groups) :
    ∃ magnitudes, SourceModel.magnitudes inputs.models = some magnitudes ∧
      (cappedSites config inputs).ids.Nodup ∧ st = settingFor config inputs magnitudes := by
  obtain ⟨magnitudes, hmagnitudes, hsetting⟩ := h.setting
  obtain ⟨⟨hnodup, -⟩, hst⟩ := settingOf_eq_ok.1 hsetting
  exact ⟨magnitudes, hmagnitudes, hnodup, congrArg Prod.fst hst⟩

/-- The common settings are those of the configuration. -/
theorem settings_eq (h : Prepares config inputs st skipped groups) :
    st.truncation = config.truncation ∧ st.time = config.time ∧
      st.marginals = config.marginals ∧ st.regions = SourceModel.regions inputs.models := by
  obtain ⟨_, -, -, rfl⟩ := h.exists_settingFor
  exact ⟨rfl, rfl, rfl, rfl⟩

theorem epsilonEdges_eq (h : Prepares config inputs st skipped groups) :
    st.epsilonEdges = SeismicHazard.epsilonEdges config.truncation config.epsilonBins := by
  obtain ⟨_, -, -, rfl⟩ := h.exists_settingFor
  rfl

/-- The setting holds the sites that have a grid. -/
theorem mem_sites (h : Prepares config inputs st skipped groups) {site : Site α} :
    site ∈ st.sites.toList ↔
      site ∈ (cappedSites config inputs).toList ∧ st.grids.contains site.id := by
  obtain ⟨_, -, -, rfl⟩ := h.exists_settingFor
  exact List.mem_filter

/-- The grids are those of the extents of the sites. -/
theorem grids_eq_some (h : Prepares config inputs st skipped groups) {id : Nat} {g : Grid α} :
    st.grids[id]? = some g ↔ ∃ magnitudes e,
      SourceModel.magnitudes inputs.models = some magnitudes ∧
      ∃ site ∈ (cappedSites config inputs).toList, site.id = id ∧
      (Extent.ofSite inputs.models site).edges? ⟨config.distanceWidth, config.coordinateWidth⟩ =
        some e ∧
      g = e.toGrid (snappedEdges magnitudes.lo magnitudes.hi config.magWidth)
        (epsilonEdges config.truncation config.epsilonBins) := by
  obtain ⟨magnitudes, hmagnitudes, hnodup, rfl⟩ := h.exists_settingFor
  have hids : (((cappedSites config inputs).toList.map fun s =>
      (s.id, Extent.ofSite inputs.models s)).map (·.1)).Nodup := by
    rw [List.map_map]
    exact hnodup
  have hgrids := @GridTable.ofExtents_eq_some _ _
    (snappedEdges magnitudes.lo magnitudes.hi config.magWidth)
    (epsilonEdges config.truncation config.epsilonBins)
    ⟨config.distanceWidth, config.coordinateWidth⟩ _ id g hids
  refine hgrids.trans ?_
  simp only [List.mem_map, Prod.mk.injEq]
  constructor
  · rintro ⟨_, e, ⟨site, hsite, hid, rfl⟩, he, hg⟩
    exact ⟨magnitudes, e, hmagnitudes, site, hsite, hid, he, hg⟩
  · rintro ⟨magnitudes', e, hmagnitudes', site, hsite, hid, he, hg⟩
    rw [hmagnitudes] at hmagnitudes'
    cases hmagnitudes'
    exact ⟨_, e, ⟨site, hsite, hid, rfl⟩, he, hg⟩

/-! ### The sites -/

/-- The skipped sites are those without a grid, in their order. -/
theorem skipped_eq_filter (h : Prepares config inputs st skipped groups) :
    skipped = inputs.sites.ids.filter fun id => st.grids[id]?.isNone := by
  obtain ⟨magnitudes, -, hsetting⟩ := h.setting
  obtain ⟨-, hpair⟩ := settingOf_eq_ok.1 hsetting
  obtain ⟨rfl, rfl⟩ := Prod.mk.inj hpair
  rw [skippedSites, ids_cappedSites]
  refine List.filter_congr fun id _ => ?_
  rw [Std.TreeMap.contains_eq_isSome_getElem?, Option.not_isSome]
  rfl

theorem nodup_ids (h : Prepares config inputs st skipped groups) :
    (cappedSites config inputs).ids.Nodup := by
  obtain ⟨_, -, hnodup, -⟩ := h.exists_settingFor
  exact hnodup

theorem nodup_ids_sites (h : Prepares config inputs st skipped groups) : st.sites.ids.Nodup := by
  have hnodup := h.nodup_ids
  obtain ⟨_, -, -, rfl⟩ := h.exists_settingFor
  exact hnodup.sublist (List.filter_sublist.map _)

/-- Sites with one id are one site. -/
theorem eq_of_id_eq (h : Prepares config inputs st skipped groups) {site site' : Site α}
    (hsite : site ∈ (cappedSites config inputs).toList)
    (hsite' : site' ∈ (cappedSites config inputs).toList) (hid : site.id = site'.id) :
    site = site' :=
  List.inj_on_of_nodup_map h.nodup_ids hsite hsite' hid

end Prepares

end

end SeismicHazard.Calculation
