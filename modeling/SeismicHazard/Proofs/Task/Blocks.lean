import SeismicHazard.Proofs.Blocks
import SeismicHazard.Proofs.Task.Contributions

/-!
# Sources in blocks

However the sources are cut into tasks, each of them is worked on exactly once.

* `WorkGroup.map_work_tasks`: the tasks of a group follow each other.
* `WorkGroup.exists_of_mem_tasks`: a task asks what its group asks.
* `WorkGroup.flatMap_jobs_tasks`: the tasks hold the parts of the sources in reach, in order.
* `WorkGroup.feasible_tasks_iff`, `WorkGroup.contributions_tasks`: whether the tasks are feasible and
  what they contribute does not depend on the cut.
-/

namespace SeismicHazard

namespace WorkGroup

section

variable {α : Type}

/-- The work without its sources: on this alone the work on a source depends. -/
def bare (w : WorkGroup α) : WorkGroup α := { w with sources := [] }

/-- The sources of a work group, each with what is asked of it. -/
def jobs (w : WorkGroup α) : List (WorkGroup α × Source α) := w.sources.map fun s => (w.bare, s)

variable [Scalar α]

theorem flatMap_jobs_blocks (numBlocks : Nat) (pointFactor : α) (w : WorkGroup α) :
    (w.blocks numBlocks pointFactor).flatMap jobs = w.jobs := by
  have hflatten := flatten_blocks w.sources numBlocks (·.weight pointFactor)
  rw [blocks, List.flatMap_map]
  calc (SeismicHazard.blocks w.sources numBlocks (·.weight pointFactor)).flatMap
        (fun block => block.map fun s => (w.bare, s))
      = (SeismicHazard.blocks w.sources numBlocks (·.weight pointFactor)).flatten.map
          fun s => (w.bare, s) := by rw [List.map_flatten, List.flatMap_def]
    _ = w.jobs := by rw [hflatten, jobs]

variable [Elementary α]

/-- The tasks of the groups that have a part in reach of a site, group by group. -/
theorem map_work_tasks (st : Setting α) (count : Nat) (pointFactor : α)
    (groups : List (WorkGroup α)) :
    let reached := groups.filterMap (inReach? st.sites)
    (tasks st count pointFactor groups).map (·.work) =
      reached.flatMap (blocks (ceilDiv (Max.max count 1) reached.length) pointFactor) := by
  apply List.ext_getElem
  · simp [tasks]
  · intro i _ _
    simp [tasks]

/-- The tasks hold the parts of the sources that are in reach of a site, in order. -/
theorem flatMap_jobs_tasks (st : Setting α) (count : Nat) (pointFactor : α)
    (groups : List (WorkGroup α)) :
    (tasks st count pointFactor groups).flatMap (fun t => t.work.jobs) =
      groups.flatMap fun w => (w.parts st.sites).map fun s => (w.bare, s) := by
  have hreach : ∀ w : WorkGroup α, ((inReach? st.sites w).toList.flatMap jobs) =
      (w.parts st.sites).map fun s => (w.bare, s) := by
    intro w
    unfold inReach?
    split
    · next hnil => rw [hnil]; rfl
    · next part parts hparts =>
      rw [hparts, Option.toList_some, List.flatMap_cons, List.flatMap_nil, List.append_nil]
      rfl
  set reached := groups.filterMap (inReach? st.sites) with hreached
  set perGroup := ceilDiv (Max.max count 1) reached.length
  have hworks : (tasks st count pointFactor groups).map (·.work) =
      reached.flatMap (blocks perGroup pointFactor) := map_work_tasks st count pointFactor groups
  calc (tasks st count pointFactor groups).flatMap (fun t => t.work.jobs)
      = ((tasks st count pointFactor groups).map (·.work)).flatMap jobs := by
        rw [List.flatMap_map]
    _ = reached.flatMap fun w => (w.blocks perGroup pointFactor).flatMap jobs := by
        rw [hworks, List.flatMap_assoc]
    _ = reached.flatMap jobs := List.flatMap_congr fun w _ => flatMap_jobs_blocks _ _ w
    _ = groups.flatMap fun w => (inReach? st.sites w).toList.flatMap jobs := by
        rw [hreached, List.filterMap_eq_flatMap_toList, List.flatMap_assoc]
    _ = groups.flatMap fun w => (w.parts st.sites).map fun s => (w.bare, s) :=
        List.flatMap_congr fun w _ => hreach w

theorem eq_of_inReach? {sites : Sites α} {w w' : WorkGroup α} (h : inReach? sites w = some w') :
    w' = { w with sources := w'.sources } := by
  unfold inReach? at h
  split at h
  · cases h
  · cases h
    rfl

/-- A task asks what its group asks, of a part of the sources. -/
theorem exists_of_mem_tasks {st : Setting α} {count : Nat} {pointFactor : α}
    {groups : List (WorkGroup α)} {t : Task α} (h : t ∈ tasks st count pointFactor groups) :
    ∃ w ∈ groups, t.work = { w with sources := t.work.sources } := by
  have hwork : t.work ∈ (tasks st count pointFactor groups).map (·.work) := List.mem_map_of_mem h
  rw [map_work_tasks] at hwork
  obtain ⟨reached, hreached, hblocks⟩ := List.mem_flatMap.1 hwork
  obtain ⟨w, hw, hreach⟩ := List.mem_filterMap.1 hreached
  obtain ⟨block, -, hblock⟩ := List.mem_map.1 hblocks
  refine ⟨w, hw, ?_⟩
  rw [← hblock, eq_of_inReach? hreach]

theorem setting_of_mem_tasks {st : Setting α} {count : Nat} {pointFactor : α}
    {groups : List (WorkGroup α)} {t : Task α} (h : t ∈ tasks st count pointFactor groups) :
    t.setting = st := by
  obtain ⟨i, -, rfl⟩ := List.mem_mapIdx.1 h
  rfl

end

section

variable {α : Type} [Field α] [LinearOrder α] [FloorRing α] [Elementary α] {st : Setting α}
  {groups : List (WorkGroup α)}

theorem feasible_bare {w : WorkGroup α} {s : Source α} : w.bare.Feasible st s ↔ w.Feasible st s := by
  constructor
  · intro h
    exact ⟨h.region, h.answered, h.placed⟩
  · intro h
    exact ⟨h.region, h.answered, h.placed⟩

/-- The tasks are feasible exactly if all parts of sources in reach are. -/
theorem feasible_tasks_iff (count : Nat) (pointFactor : α) :
    (∀ t ∈ tasks st count pointFactor groups, ∀ s ∈ t.work.sources, t.work.Feasible t.setting s) ↔
      ∀ w ∈ groups, ∀ s ∈ w.parts st.sites, w.Feasible st s := by
  have htasks : (∀ t ∈ tasks st count pointFactor groups, ∀ s ∈ t.work.sources,
      t.work.Feasible t.setting s) ↔
      ∀ j ∈ (tasks st count pointFactor groups).flatMap (fun t => t.work.jobs),
        j.1.Feasible st j.2 := by
    simp only [List.mem_flatMap, jobs, List.mem_map]
    constructor
    · rintro h _ ⟨t, ht, s, hs, rfl⟩
      exact feasible_bare.2 (setting_of_mem_tasks ht ▸ h t ht s hs)
    · intro h t ht s hs
      rw [setting_of_mem_tasks ht]
      exact feasible_bare.1 (h _ ⟨t, ht, s, hs, rfl⟩)
  rw [htasks, flatMap_jobs_tasks]
  simp only [List.mem_flatMap, List.mem_map]
  constructor
  · intro h w hw s hs
    exact feasible_bare.1 (h _ ⟨w, hw, s, hs, rfl⟩)
  · rintro h _ ⟨w, hw, s, hs, rfl⟩
    exact feasible_bare.2 (h w hw s hs)

/-- What the tasks contribute together, whatever the cut. -/
theorem contributions_tasks (count : Nat) (pointFactor : α) (k : ResultKey α) :
    (tasks st count pointFactor groups : Multiset (Task α)).bind (fun t => t.contributions k) =
      (groups : Multiset (WorkGroup α)).bind fun w =>
        (w.parts st.sites : Multiset (Source α)).bind fun s => w.contributions st s k := by
  -- on both sides every job contributes once
  let perJob (j : WorkGroup α × Source α) : Multiset (Contribution α) := j.1.contributions st j.2 k
  have hjobs : ∀ (w : WorkGroup α) (sources : List (Source α)),
      ((sources.map fun s => (w.bare, s) : List (WorkGroup α × Source α)) : Multiset _).bind perJob =
        (sources : Multiset (Source α)).bind fun s => w.contributions st s k := by
    intro w sources
    rw [← Multiset.map_coe, Multiset.bind_map]
    rfl
  calc (tasks st count pointFactor groups : Multiset (Task α)).bind (fun t => t.contributions k)
      = (tasks st count pointFactor groups : Multiset (Task α)).bind fun t =>
          Multiset.bind (t.work.jobs : Multiset (WorkGroup α × Source α)) perJob := by
        refine Multiset.bind_congr fun t ht => ?_
        have hsetting := setting_of_mem_tasks (Multiset.mem_coe.1 ht)
        have hwork := hjobs t.work t.work.sources
        rw [Task.contributions, hsetting, ← hwork]
        rfl
    _ = ((((tasks st count pointFactor groups).flatMap fun t => t.work.jobs) :
          List (WorkGroup α × Source α)) : Multiset (WorkGroup α × Source α)).bind perJob := by
        rw [← Multiset.coe_bind, Multiset.bind_assoc]
    _ = (groups : Multiset (WorkGroup α)).bind fun w =>
        (w.parts st.sites : Multiset (Source α)).bind fun s => w.contributions st s k := by
        rw [flatMap_jobs_tasks, ← Multiset.coe_bind, Multiset.bind_assoc]
        exact Multiset.bind_congr fun w _ => hjobs w _

end

end WorkGroup

end SeismicHazard
