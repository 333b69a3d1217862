import SeismicHazard.Proofs.Calculation.Run

/-!
# How tasks share out the sources

The tasks hold the parts of the sources that lie within the distance of a site, each once and in order,
and no task is empty. The groups follow each other, each in less than twice as many tasks as it was
meant to have.

* `WorkGroup.nearParts`: the parts of the sources of a group within the distance of a site.
* `WorkGroup.tasks_share_nearParts`: the tasks of several groups.
-/

namespace SeismicHazard

section

variable {α : Type} [Field α] [LinearOrder α] [FloorRing α] [Elementary α]

/-- Whether a source lies within the distance of at least one of the sites. -/
def Source.Near (s : Source α) (sites : Sites α) : Prop :=
  ∃ site ∈ sites.toList, s.minDistance site.location ≤ site.maxDistance

instance (s : Source α) (sites : Sites α) : Decidable (s.Near sites) :=
  inferInstanceAs (Decidable (∃ site ∈ sites.toList, _))

theorem Source.affects_eq (s : Source α) (sites : Sites α) :
    s.affects sites = decide (s.Near sites) := by
  rw [Bool.eq_iff_iff, decide_eq_true_iff]
  simp [affects, sitesInReach, Near]

namespace WorkGroup

/-- The parts of the sources within the distance of at least one of the sites. -/
def nearParts (w : WorkGroup α) (sites : Sites α) : List (Source α) :=
  (w.sources.flatMap (·.split)).filter (·.Near sites)

theorem parts_eq_nearParts (w : WorkGroup α) (sites : Sites α) : w.parts sites = w.nearParts sites :=
  List.filter_congr fun s _ => s.affects_eq sites

theorem inReach?_eq (w : WorkGroup α) (sites : Sites α) : inReach? sites w =
    if w.nearParts sites = [] then none else some { w with sources := w.nearParts sites } := by
  unfold inReach?
  rw [parts_eq_nearParts]
  cases w.nearParts sites <;> rfl

theorem length_reached (groups : List (WorkGroup α)) (sites : Sites α) :
    (groups.filterMap (inReach? sites)).length =
      groups.countP fun w => decide (w.nearParts sites ≠ []) := by
  rw [List.length_filterMap_eq_countP]
  refine List.countP_congr fun w _ => ?_
  rw [inReach?_eq]
  split <;> simp [*]

variable [IsStrictOrderedRing α]

/-- The tasks share out the parts within the distance of a site. They are numbered from zero on, none is
empty, and those of a group follow each other in the order of the groups, with everything else as the
group has it. The blocks of sources of a group are, put together, its parts within the distance of a
site in their order; a group without such parts has no task, and any other one less than twice as many
as its even share of the number of tasks asked for. To ask for none is to ask for one. -/
theorem tasks_share_nearParts (st : Setting α) (count : Nat) (pointFactor : α)
    (groups : List (WorkGroup α)) :
    let made := tasks st count pointFactor groups
    let numGroups := groups.countP fun w => decide (w.nearParts st.sites ≠ [])
    made.map (·.number) = List.range made.length ∧
    (∀ t ∈ made, t.setting = st ∧ t.work.sources ≠ []) ∧
    ∃ cut : WorkGroup α → List (List (Source α)),
      made.map (·.work) = groups.flatMap (fun w => (cut w).map fun block =>
        { w with sources := block }) ∧
      ∀ w ∈ groups, (cut w).flatten = w.nearParts st.sites ∧
        (w.nearParts st.sites = [] → cut w = []) ∧
        (cut w).length ≤ 2 * ceilDiv (Max.max count 1) numGroups - 1 := by
  intro made numGroups
  set perGroup := ceilDiv (Max.max count 1) numGroups with hperGroup
  let cut (w : WorkGroup α) : List (List (Source α)) :=
    if w.nearParts st.sites = [] then []
    else SeismicHazard.blocks (w.nearParts st.sites) perGroup (·.weight pointFactor)
  have hworks : made.map (·.work) = groups.flatMap fun w => (cut w).map fun block =>
      { w with sources := block } := by
    rw [map_work_tasks, length_reached, List.filterMap_eq_flatMap_toList, List.flatMap_assoc]
    refine List.flatMap_congr fun w _ => ?_
    rw [inReach?_eq]
    by_cases hnil : w.nearParts st.sites = []
    · simp [cut, hnil]
    · simp only [if_neg hnil, cut, Option.toList_some, List.flatMap_singleton]
      rfl
  refine ⟨?_, fun t ht => ⟨setting_of_mem_tasks ht, ?_⟩, cut, hworks, fun w hw => ⟨?_, ?_, ?_⟩⟩
  · apply List.ext_getElem
    · simp
    · intro i _ _
      simp [made, tasks]
  · have hwork : t.work ∈ made.map (·.work) := List.mem_map_of_mem ht
    rw [hworks] at hwork
    obtain ⟨w, -, hwork⟩ := List.mem_flatMap.1 hwork
    obtain ⟨block, hblock, hwork⟩ := List.mem_map.1 hwork
    rw [← hwork]
    by_cases hnil : w.nearParts st.sites = []
    · simp [cut, hnil] at hblock
    · simp only [cut, if_neg hnil] at hblock
      exact ne_nil_of_mem_blocks hblock
  · by_cases hnil : w.nearParts st.sites = []
    · simp [cut, hnil]
    · simp only [cut, if_neg hnil]
      exact flatten_blocks _ _ _
  · intro hnil
    simp [cut, hnil]
  · by_cases hnil : w.nearParts st.sites = []
    · simp [cut, hnil]
    · simp only [cut, if_neg hnil]
      have hgroups : 0 < numGroups := List.countP_pos_iff.2 ⟨w, hw, decide_eq_true hnil⟩
      have hpositive : 0 < perGroup := ceilDiv_pos (by omega) hgroups
      have hlength := length_blocks_le (w.nearParts st.sites) perGroup (·.weight pointFactor)
      rwa [Nat.max_eq_left hpositive] at hlength

end WorkGroup

end

/-! ### A sample -/

namespace WorkGroup

open Calculation.Sample in
/-- A group out of reach of the only site, and one of three parts, each in a task of its own. -/
theorem tasks_share_nearParts_sample :
    let st : Setting ℚ := ⟨inputs.sites, [], ∅, 3, 50, [], false, []⟩
    let far : WorkGroup ℚ := ⟨0, 0, [.point ⟨"far", "A", ⟨0, 0, 10⟩, recurrence⟩], ⟨"A", ⟨∅⟩⟩, [], ∅⟩
    let near : WorkGroup ℚ := ⟨0, 1, SourceModel.allSources inputs.models, ⟨"A", ⟨∅⟩⟩, [], ∅⟩
    let made := tasks st 2 1 [far, near]
    made.map (fun t => (t.number, t.work.group, t.work.sources.map (·.id))) =
        [(0, 1, ["point"]), (1, 1, ["area:0"]), (2, 1, ["area:1"])] ∧
    ∃ cut : WorkGroup ℚ → List (List (Source ℚ)),
      cut far = [] ∧ (cut near).flatten = near.nearParts st.sites ∧ (cut near).length ≤ 3 := by
  intro st far near made
  obtain ⟨-, -, cut, -, hcut⟩ := tasks_share_nearParts st 2 1 [far, near]
  obtain ⟨-, hfar, -⟩ := hcut far (by simp)
  obtain ⟨hflatten, -, hlength⟩ := hcut near (by simp)
  refine ⟨by decide +kernel, cut, hfar (by decide +kernel), hflatten, hlength.trans ?_⟩
  decide +kernel

end WorkGroup

end SeismicHazard
