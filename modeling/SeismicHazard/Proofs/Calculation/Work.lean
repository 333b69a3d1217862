import SeismicHazard.Proofs.Calculation.Plan
import SeismicHazard.Proofs.Config.Validation
import SeismicHazard.Proofs.Target

/-!
# The work on a group of sources

* `Calculation.WorksOn`: what the work on a group consists of.
* `Calculation.Prepares.mem_groups`: the groups that are worked on.
* `Calculation.Prepares.exists_workGroup`: no group with a realization is left out.
-/

namespace SeismicHazard.Calculation

section

variable {α : Type} [Field α] [LinearOrder α] [FloorRing α]

/-- Whether nothing is asked for twice, and no two realizations have one ordinal. -/
structure NoRepeats (config : Config α) (inputs : Inputs α) : Prop where
  poes : config.request.poes.Nodup
  imts : config.request.imts.Nodup
  ordinals : (inputs.tree.realizations.map (·.ordinal)).Nodup

/-- What the work on a group of sources consists of: its sources, its targets with a model from the
library for each, and the levels of the targets at every site. -/
structure WorksOn (config : Config α) (inputs : Inputs α) (sites : Sites α) (m : SourceModel α)
    (g : SourceGroup α) (w : WorkGroup α) : Prop where
  sources : w.sources = g.sources
  targets : ∀ target, target ∈ w.targets ↔
    target.realization ∈ inputs.tree.naming g.region m.ordinal target.model ∧
      target.imt ∈ config.measures ∧ target.poe ∈ config.thresholds
  nodup : NoRepeats config inputs → w.targets.Nodup
  models : ∀ target ∈ w.targets, ∃ model, inputs.library.get target.model = .ok model ∧
    w.models.get target.model = .ok model
  levels : sites.ids.Nodup → ∀ site ∈ sites.toList, w.levels[site.id]? =
    some (w.targets.map (Target.level? config.request.levels inputs.curves site.id))

variable {config : Config α} {inputs : Inputs α} {sites : Sites α} {m : SourceModel α}
  {g : SourceGroup α} {w : WorkGroup α}

theorem workGroup?_eq_some : workGroup? config inputs sites m g = some w ↔
    workGroup config inputs sites m g = .ok (some w) := by
  unfold workGroup?
  cases workGroup config inputs sites m g <;> simp [Except.toOption]

theorem worksOn_of_workGroup? (h : workGroup? config inputs sites m g = some w) :
    WorksOn config inputs sites m g w := by
  obtain ⟨byModel, hby, ⟨-, hnone⟩ | ⟨-, models, hmodels, hw⟩⟩ :=
    workGroup_eq_ok.1 (workGroup?_eq_some.1 h)
  · cases hnone
  · cases hw
    refine ⟨rfl, fun target => Target.mem_all hby, fun hrepeats => ?_, fun target htarget => ?_,
      fun _ site => Target.getElem?_levels _⟩
    · exact Target.nodup_all hby hrepeats.ordinals (Config.nodup_measures hrepeats.imts)
        (Config.nodup_thresholds hrepeats.poes)
    · have hname := LogicTree.mem_keys_of_naming hby ((Target.mem_all hby).1 htarget).1
      exact RegionModels.get_of_make hmodels hname

/-- Each realization of a source model names a ground-motion model for the regions of its groups. -/
theorem exists_model_of_workGroup {x : Option (WorkGroup α)}
    (h : workGroup config inputs sites m g = .ok x) {r : Realization α}
    (hr : r ∈ inputs.tree.ofModel m.ordinal) : ∃ name, r.groundMotion[g.region]? = some name := by
  obtain ⟨byModel, hby, -⟩ := workGroup_eq_ok.1 h
  exact LogicTree.exists_model_of_byGroundMotion hby hr

/-- A group without work has no realization. -/
theorem ofModel_eq_nil (h : workGroup config inputs sites m g = .ok none) :
    inputs.tree.ofModel m.ordinal = [] := by
  obtain ⟨byModel, hby, ⟨hempty, -⟩ | ⟨-, _, -, hw⟩⟩ := workGroup_eq_ok.1 h
  · refine List.eq_nil_iff_forall_not_mem.2 fun r hr => ?_
    obtain ⟨name, hname⟩ := LogicTree.exists_model_of_byGroundMotion hby hr
    have hkey := LogicTree.mem_keys_of_naming hby (LogicTree.mem_naming.2 ⟨r, hr, hname, rfl⟩)
    rw [Std.TreeMap.mem_keys] at hkey
    exact Std.TreeMap.isEmpty_iff_forall_not_mem.1 hempty name hkey
  · cases hw

variable [Elementary α] {st : Setting α} {skipped : List Nat} {groups : List (WorkGroup α)}

namespace Prepares

theorem groups_eq (h : Prepares config inputs st skipped groups) : groups =
    inputs.models.flatMap fun m => m.groups.filterMap (workGroup? config inputs st.sites m) :=
  (workGroups_eq_ok.1 h.groups).2

theorem exists_workGroup (h : Prepares config inputs st skipped groups) (hm : m ∈ inputs.models)
    (hg : g ∈ m.groups) : ∃ x, workGroup config inputs st.sites m g = .ok x :=
  (workGroups_eq_ok.1 h.groups).1 m hm g hg

theorem mem_groups (h : Prepares config inputs st skipped groups) : w ∈ groups ↔
    ∃ m ∈ inputs.models, ∃ g ∈ m.groups, workGroup? config inputs st.sites m g = some w := by
  rw [h.groups_eq]
  simp only [List.mem_flatMap, List.mem_filterMap]

end Prepares

end

end SeismicHazard.Calculation
