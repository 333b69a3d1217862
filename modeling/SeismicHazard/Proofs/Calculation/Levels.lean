import SeismicHazard.Proofs.Calculation.Keys
import SeismicHazard.Proofs.Calculation.Reachable
import SeismicHazard.Proofs.Config.Validation

/-!
# All levels are given, or none is

An allowed configuration gives a level for each measure that it asks for, or for none of them. In the
first case every target has its level at every site; in the second one the levels are those that the
thresholds have on the hazard curves.

* `Target.level?_of_given`, `Target.level?_eq_some_iff`: the level of a target in both cases.
* `Target.ReadsLevel`: what a level is that is read off a hazard curve.
* `Calculation.LevelsAgree`: what is said of the targets of a group and their levels.
* `Calculation.levelsAgree_of_workGroup`: it holds of the work on each group.
* `Calculation.levels_given_or_read`: it holds of each task of a plan.
-/

namespace SeismicHazard

open Std (TreeMap)

/-! ### The level of a target -/

section

variable {α : Type}

/-- Whether there is a curve of the measure for a realization at a site. -/
def CurveTable.HasCurve (t : CurveTable α) (site realization : ℕ) (imt : String) (c : Curve α) :
    Prop :=
  ∃ set, t.get? site realization = some set ∧ set.get? imt = some c

variable [Scalar α] {fixed : TreeMap String α} {curves : CurveTable α} {site : ℕ} {x : Target α}
  {poe level : α}

namespace Target

/-- A level that is given is that of all sites. -/
theorem level?_of_given (h : fixed[x.imt]? = some level) : level? fixed curves site x = some level := by
  unfold level?
  rw [h]

/-- Another level is that of the threshold on the hazard curve, if there is one that is not zero. -/
theorem level?_eq_some_iff (h : fixed[x.imt]? = none) (hpoe : x.poe = some poe) :
    level? fixed curves site x = some level ↔
      ∃ c, curves.HasCurve site x.realization x.imt c ∧ ¬ c.isZero ∧ c.levelAt poe = level := by
  unfold level?
  rw [h, hpoe]
  simp only [Option.bind_eq_bind, Option.bind_some, Option.bind_eq_some_iff,
    Option.ite_none_left_eq_some, Option.some.injEq]
  constructor
  · rintro ⟨set, hset, c, hc, hlevel⟩
    exact ⟨c, ⟨set, hset, hc⟩, hlevel⟩
  · rintro ⟨c, ⟨set, hset, hc⟩, hlevel⟩
    exact ⟨set, hset, c, hc, hlevel⟩

theorem level?_eq_none_iff (h : fixed[x.imt]? = none) (hpoe : x.poe = some poe) :
    level? fixed curves site x = none ↔
      ∀ c, curves.HasCurve site x.realization x.imt c → c.isZero := by
  rw [Option.eq_none_iff_forall_ne_some]
  simp only [ne_eq, level?_eq_some_iff h hpoe]
  constructor
  · intro hnone c hc
    by_contra hzero
    exact hnone (c.levelAt poe) ⟨c, hc, hzero, rfl⟩
  · rintro hzero _ ⟨c, hc, hne, -⟩
    exact hne (hzero c hc)

/-- Whether a level is that of the threshold on the hazard curve, and there is none exactly if the curve
is missing or zero. -/
structure ReadsLevel (curves : CurveTable α) (site : ℕ) (x : Target α) (l : Option α) : Prop where
  none_iff : l = none ↔ ∀ c, curves.HasCurve site x.realization x.imt c → c.isZero
  eq_levelAt : ∀ level, l = some level → ∃ poe c, x.poe = some poe ∧
    curves.HasCurve site x.realization x.imt c ∧ c.levelAt poe = level

theorem forall₂_given {targets : List (Target α)} (h : ∀ x ∈ targets, x.imt ∈ fixed) :
    List.Forall₂ (fun x l => ∃ level, fixed[x.imt]? = some level ∧ l = some level) targets
      (targets.map (level? fixed curves site)) := by
  rw [List.forall₂_map_right_iff, List.forall₂_same]
  intro x hx
  obtain ⟨level, hlevel⟩ := Option.isSome_iff_exists.1 (TreeMap.mem_iff_isSome_getElem?.1 (h x hx))
  exact ⟨level, hlevel, level?_of_given hlevel⟩

theorem forall₂_read {targets : List (Target α)} (h : ∀ x ∈ targets, x.imt ∉ fixed)
    (hpoes : ∀ x ∈ targets, ∃ poe, x.poe = some poe) :
    List.Forall₂ (ReadsLevel curves site) targets (targets.map (level? fixed curves site)) := by
  rw [List.forall₂_map_right_iff, List.forall₂_same]
  intro x hx
  have hmissing : fixed[x.imt]? = none := TreeMap.getElem?_eq_none (h x hx)
  obtain ⟨poe, hpoe⟩ := hpoes x hx
  refine ⟨level?_eq_none_iff hmissing hpoe, fun level hlevel => ?_⟩
  obtain ⟨c, hc, -, hat⟩ := (level?_eq_some_iff hmissing hpoe).1 hlevel
  exact ⟨poe, c, hpoe, hc, hat⟩

end Target

end

/-! ### The targets of a group -/

namespace Target

variable {α : Type} {t : LogicTree α} {region : String} {sourceModel : ℕ}
  {byModel : TreeMap String (List ℕ)} {imts : List String} {thresholds : List (Option α)}

/-- Something is asked of a group with a realization. -/
theorem all_ne_nil (h : t.byGroundMotion region sourceModel = .ok byModel)
    (hmodels : ¬ byModel.isEmpty) (himts : imts ≠ []) (hthresholds : thresholds ≠ []) :
    all byModel imts thresholds ≠ [] := by
  obtain ⟨imt, himt⟩ := List.exists_mem_of_ne_nil imts himts
  obtain ⟨poe, hpoe⟩ := List.exists_mem_of_ne_nil thresholds hthresholds
  obtain ⟨name, hname⟩ : ∃ name, name ∈ byModel := by
    by_contra hnone
    exact hmodels (TreeMap.isEmpty_iff_forall_not_mem.2 (not_exists.1 hnone))
  obtain ⟨ordinals, hordinals⟩ := Option.isSome_iff_exists.1
    (TreeMap.mem_iff_isSome_getElem?.1 hname)
  obtain ⟨hne, rfl⟩ := (LogicTree.mem_of_mem_toList h).1
    (TreeMap.mem_toList_iff_getElem?_eq_some.2 hordinals)
  obtain ⟨ordinal, hordinal⟩ := List.exists_mem_of_ne_nil _ hne
  have hmem : (⟨poe, name, imt, ordinal⟩ : Target α) ∈ all byModel imts thresholds :=
    (mem_all h).2 ⟨hordinal, himt, hpoe⟩
  exact List.ne_nil_of_mem hmem

end Target

namespace Calculation

section

variable {α : Type} [Scalar α] {config : Config α} {inputs : Inputs α}

/-- Whether all targets have a level that is given, or none has. In the first case every site has the
levels that are given. In the second one every target has a threshold, and a site has no level for it
exactly if its curve is missing or zero. -/
structure LevelsAgree (config : Config α) (inputs : Inputs α) (sites : Sites α)
    (targets : List (Target α)) (levels : LevelTable α) : Prop where
  ne_nil : targets ≠ []
  given_or_threshold : ∀ x ∈ targets, x.imt ∈ config.request.levels ∨
    ∃ poe ∈ config.request.poes, x.poe = some poe
  all_given_iff : (∀ x ∈ targets, x.imt ∈ config.request.levels) ↔ ¬ config.request.levels.isEmpty
  none_given_iff : (∀ x ∈ targets, x.imt ∉ config.request.levels) ↔ config.request.levels.isEmpty
  given : ¬ config.request.levels.isEmpty → ∀ site ∈ sites.toList, ∃ ls, levels[site.id]? = some ls ∧
    List.Forall₂ (fun x l => ∃ level, config.request.levels[x.imt]? = some level ∧ l = some level)
      targets ls
  read : config.request.levels.isEmpty → ∀ site ∈ sites.toList, ∃ ls, levels[site.id]? = some ls ∧
    List.Forall₂ (Target.ReadsLevel inputs.curves site.id) targets ls

/-- Levels are given for all targets of a group, or for none of them. -/
theorem levelsAgree_of_workGroup (hvalid : config.validate = .ok ())
    (hrequest : config.validateRequest = .ok ()) {sites : Sites α} {m : SourceModel α}
    {g : SourceGroup α} {w : WorkGroup α}
    (h : workGroup config inputs sites m g = .ok (some w)) :
    LevelsAgree config inputs sites w.targets w.levels := by
  obtain ⟨byModel, hby, ⟨-, hnone⟩ | ⟨hempty, models, -, hsome⟩⟩ := workGroup_eq_ok.1 h
  · cases hnone
  cases hsome
  have hne : Target.all byModel config.measures config.thresholds ≠ [] :=
    Target.all_ne_nil hby hempty (Config.measures_ne_nil hrequest) Config.thresholds_ne_nil
  obtain ⟨asked, hasked⟩ := List.exists_mem_of_ne_nil _ hne
  have hgiven : ¬ config.request.levels.isEmpty →
      ∀ x ∈ Target.all byModel config.measures config.thresholds, x.imt ∈ config.request.levels :=
    fun hlevels x hx => Config.mem_levels_of_mem_measures hvalid hlevels
      ((Target.mem_all hby).1 hx).2.1
  have hnot : config.request.levels.isEmpty →
      ∀ x ∈ Target.all byModel config.measures config.thresholds, x.imt ∉ config.request.levels :=
    fun hlevels x _ => TreeMap.isEmpty_iff_forall_not_mem.1 hlevels x.imt
  have hthreshold : config.request.levels.isEmpty →
      ∀ x ∈ Target.all byModel config.measures config.thresholds,
        ∃ poe ∈ config.request.poes, x.poe = some poe :=
    fun hlevels x hx => Config.exists_threshold hrequest hlevels ((Target.mem_all hby).1 hx).2.2
  constructor
  case ne_nil => exact hne
  case given_or_threshold =>
    intro x hx
    by_cases hlevels : config.request.levels.isEmpty
    · exact .inr (hthreshold hlevels x hx)
    · exact .inl (hgiven hlevels x hx)
  case all_given_iff =>
    exact ⟨fun hall hlevels => hnot hlevels asked hasked (hall asked hasked), hgiven⟩
  case none_given_iff =>
    refine ⟨fun hall => ?_, hnot⟩
    by_contra hlevels
    exact hall asked hasked (hgiven hlevels asked hasked)
  case given =>
    intro hlevels site hsite
    exact ⟨_, Target.getElem?_levels _ hsite, Target.forall₂_given (hgiven hlevels)⟩
  case read =>
    intro hlevels site hsite
    have hpoes : ∀ x ∈ Target.all byModel config.measures config.thresholds,
        ∃ poe, x.poe = some poe := fun x hx =>
      (hthreshold hlevels x hx).imp fun poe hpoe => hpoe.2
    exact ⟨_, Target.getElem?_levels _ hsite, Target.forall₂_read (hnot hlevels) hpoes⟩

variable [Elementary α] [TotalOrder α]

/-- In a calculation with an allowed configuration, either the levels are given for all targets of all
groups, or they are read off the hazard curves for all of them; the tasks know which. -/
theorem levels_given_or_read (config : Config α) (inputs : Inputs α)
    (hvalid : config.validate = .ok ()) (hrequest : config.validateRequest = .ok ()) :
    (∀ sites m g w, workGroup config inputs sites m g = .ok (some w) →
      LevelsAgree config inputs sites w.targets w.levels) ∧
    ∀ executor workers p, plan ⟨config, executor, workers⟩ inputs = .ok p →
      (p.setting.fixedLevels = true ↔ ¬ config.request.levels.isEmpty) ∧
      ∀ t ∈ p.tasks, t.setting = p.setting ∧
        LevelsAgree config inputs p.setting.sites t.work.targets t.work.levels := by
  refine ⟨fun sites m g w => levelsAgree_of_workGroup hvalid hrequest,
    fun executor workers p hplan => ⟨?_, fun t ht => ?_⟩⟩
  · obtain ⟨magnitudes, -, hsetting, -, -⟩ := exists_of_plan hplan
    obtain ⟨_, -, hst⟩ := Fallible.bind_eq_ok.1 hsetting
    have hfixed : p.setting.fixedLevels = config.hasLevels := by
      rw [← (Prod.mk.inj (Except.ok.inj hst)).1]
    simp [hfixed, Config.hasLevels]
  · obtain ⟨hsetting, m, -, g, -, w, hgroup, htargets, hlevels⟩ := exists_workGroup_of_mem_tasks hplan ht
    rw [htargets, hlevels]
    exact ⟨hsetting, levelsAgree_of_workGroup hvalid hrequest hgroup⟩

end

open scoped Sample in
/-- One calculation with a level that is given, and one with levels from hazard curves. -/
theorem levels_given_or_read_sample :
    (∃ p, plan ⟨Sample.config, .sequential, 1⟩ Sample.inputs = .ok p ∧ p.setting.fixedLevels = true ∧
      ∃ t ∈ p.tasks, LevelsAgree Sample.config Sample.inputs p.setting.sites t.work.targets
        t.work.levels) ∧
    ∃ p, plan ⟨ReachSample.settings, .sequential, 1⟩ ReachSample.inputs = .ok p ∧
      p.setting.fixedLevels = false ∧ ∃ t ∈ p.tasks, LevelsAgree ReachSample.settings ReachSample.inputs
        p.setting.sites t.work.targets t.work.levels := by
  have hplanned : ∀ (c : Calculation ℚ) inputs,
      ((c.plan inputs).toOption.any fun p => !p.tasks.isEmpty) = true →
      ∃ p, c.plan inputs = .ok p ∧ ∃ t, t ∈ p.tasks := by
    intro c inputs hany
    obtain ⟨p, hp, htasks⟩ := (Option.any_eq_true _ _).1 hany
    exact ⟨p, Fallible.toOption_eq_some.1 hp, List.exists_mem_of_ne_nil _ (by simpa using htasks)⟩
  obtain ⟨hvalid, hrequest, -⟩ := withExecutor_eq_ok.1 Sample.withExecutor_config
  obtain ⟨-, hgiven⟩ := levels_given_or_read Sample.config Sample.inputs hvalid hrequest
  have hsettings : withExecutor ReachSample.settings .sequential 1 =
      .ok ⟨ReachSample.settings, .sequential, 1⟩ := withExecutor_of_toBool (by decide +kernel)
  obtain ⟨hvalid', hrequest', -⟩ := withExecutor_eq_ok.1 hsettings
  obtain ⟨-, hread⟩ := levels_given_or_read ReachSample.settings ReachSample.inputs hvalid' hrequest'
  obtain ⟨p, hp, t, ht⟩ := hplanned ⟨Sample.config, .sequential, 1⟩ Sample.inputs (by decide +kernel)
  obtain ⟨q, hq, u, hu⟩ := hplanned ⟨ReachSample.settings, .sequential, 1⟩ ReachSample.inputs
    (by decide +kernel)
  obtain ⟨hfixed, htask⟩ := hgiven .sequential 1 p hp
  obtain ⟨hnotFixed, htask'⟩ := hread .sequential 1 q hq
  refine ⟨⟨p, hp, hfixed.2 (by decide +kernel), t, ht, (htask t ht).2⟩,
    ⟨q, hq, ?_, u, hu, (htask' u hu).2⟩⟩
  rw [← Bool.not_eq_true, hnotFixed]
  decide +kernel

end Calculation

end SeismicHazard
