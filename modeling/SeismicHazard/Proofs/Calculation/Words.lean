import SeismicHazard.Proofs.Calculation.Plan
import SeismicHazard.Proofs.Grid.Words

/-!
# Plans in words of 64 bits

The plan of a calculation counts its tasks and the multiples of its widths in words. A number that is no
word is replaced by another one, and nothing that a configuration must satisfy prevents that.

* `Config.taskWord?`: the number of tasks, if it is a word.
* `Calculation.ranges`: the ranges that a plan lays edges around, each with its width.
* `Calculation.InWords`: the plan stays in words.
* `Calculation.inWords_iff`: when it does, and that then no number is replaced.
* `Calculation.not_inWords`: accepted configurations for which it does not.
-/

namespace SeismicHazard

/-- A range and the width of the bins around it. -/
structure EdgeRange (α : Type) where
  width : α
  span : Span α

namespace EdgeRange

variable {α : Type} [Scalar α]

def edges (r : EdgeRange α) : List α := snappedEdges r.span.lo r.span.hi r.width

def words? (r : EdgeRange α) : Option (Int × Int) := snappedWords? r.span.lo r.span.hi r.width

end EdgeRange

namespace Config

variable {α : Type}

/-- The number of threads, where `workers` are there if none are asked for. -/
def threads (c : Config α) (workers : Nat) : Nat :=
  (c.execution.threads.filter (0 < ·)).getD workers

/-- The number of tasks, absent if it is no word: the double of the number of threads may be none. -/
def taskWord? (c : Config α) (workers : Nat) : Option Nat :=
  match c.execution.taskCount with
  | some n => some n
  | none => if 2 * c.threads workers < UInt64.size then some (2 * c.threads workers) else none

theorem taskWord?_eq_some {c : Config α} {workers n : Nat} : c.taskWord? workers = some n ↔
    (c.execution.taskCount = none → c.threads workers < 2 ^ 63) ∧ n = c.taskCount workers := by
  unfold taskWord? taskCount
  cases c.execution.taskCount with
  | some k => simp [eq_comm]
  | none =>
    have hsize : UInt64.size = 2 * 2 ^ 63 := rfl
    simp only [Option.getD_none, hsize, forall_const]
    change (if 2 * c.threads workers < _ then _ else _) = _ ↔
      _ ∧ n = 2 * c.threads workers % (2 * 2 ^ 63)
    split
    · next hlt =>
      rw [Nat.mod_eq_of_lt hlt]
      simp; omega
    · simp; omega

end Config

namespace Extent

variable {α : Type} [Scalar α]

/-- The ranges around which an extent has edges. -/
def ranges (e : Extent α) (widths : SiteWidths α) : List (EdgeRange α) :=
  match e.longitude? with
  | none => []
  | some longitude =>
    ⟨widths.coordinate, longitude⟩ ::
      ((e.distance.map nonnegative).toList.map (⟨widths.distance, ·⟩) ++
        e.latitude.toList.map (⟨widths.coordinate, ·⟩))

theorem edgesAround_eq (width : α) (s : Option (Span α)) :
    edgesAround width s = [] ∨ ∃ r ∈ s.toList.map (EdgeRange.mk width), edgesAround width s = r.edges := by
  cases s with
  | none => exact .inl rfl
  | some s => exact .inr ⟨⟨width, s⟩, by simp, rfl⟩

/-- The edges of an extent along an axis are those around one of its ranges, if there are any. -/
theorem eq_edges_of_edges? {e : Extent α} {widths : SiteWidths α} {s : SiteEdges α}
    (h : e.edges? widths = some s) : ∀ edges ∈ [s.distance, s.longitude, s.latitude],
      edges = [] ∨ ∃ r ∈ e.ranges widths, edges = r.edges := by
  unfold edges? at h
  unfold ranges
  cases hlongitude : e.longitude? with
  | none =>
    rw [hlongitude] at h
    cases h
  | some longitude =>
    rw [hlongitude] at h
    cases h
    intro edges hedges
    simp only [List.mem_cons, List.not_mem_nil, or_false] at hedges
    rcases hedges with rfl | rfl | rfl
    · refine (edgesAround_eq _ _).imp_right ?_
      rintro ⟨r, hr, heq⟩
      exact ⟨r, List.mem_cons_of_mem _ (List.mem_append_left _ hr), heq⟩
    · exact .inr ⟨_, List.mem_cons_self, rfl⟩
    · refine (edgesAround_eq _ _).imp_right ?_
      rintro ⟨r, hr, heq⟩
      exact ⟨r, List.mem_cons_of_mem _ (List.mem_append_right _ hr), heq⟩

end Extent

namespace Calculation

section

variable {α : Type} [Scalar α] [Elementary α] [TotalOrder α]

/-- The ranges that a plan lays edges around: that of the magnitudes, and those of the extents of the
sites. -/
def ranges (c : Calculation α) (inputs : Inputs α) : List (EdgeRange α) :=
  (SourceModel.magnitudes inputs.models).toList.map (⟨c.config.magWidth, ·⟩) ++
    inputs.sites.toList.flatMap fun site =>
      (Extent.ofSite inputs.models (capped c.config.maxDistance site)).ranges
        ⟨c.config.distanceWidth, c.config.coordinateWidth⟩

/-- Every number of a plan that is an integer stays in words: how many tasks there are, and the
first and the last index around every range. -/
structure InWords (c : Calculation α) (inputs : Inputs α) : Prop where
  tasks : (c.config.taskWord? c.workers).isSome
  ranges : ∀ r ∈ c.ranges inputs, r.words?.isSome

theorem grid_of_settingOf {config : Config α} {inputs : Inputs α} {magnitudes : Span α}
    {st : Setting α} {skipped : List Nat}
    (h : settingOf config inputs magnitudes = .ok (st, skipped)) {id : Nat} {g : Grid α}
    (hg : st.grids[id]? = some g) : ∃ site ∈ inputs.sites.toList, ∃ e : SiteEdges α,
      (Extent.ofSite inputs.models (capped config.maxDistance site)).edges?
        ⟨config.distanceWidth, config.coordinateWidth⟩ = some e ∧
      g = e.toGrid (snappedEdges magnitudes.lo magnitudes.hi config.magWidth)
        (epsilonEdges config.truncation config.epsilonBins) := by
  obtain ⟨sites, hsites, h⟩ := Fallible.bind_eq_ok.1 h
  obtain ⟨⟨hnodup, -⟩, rfl⟩ := Sites.ofList_eq_ok.1 hsites
  cases h
  have hids : (((inputs.sites.toList.map (capped config.maxDistance)).map fun s =>
      (s.id, Extent.ofSite inputs.models s)).map (·.1)).Nodup := by
    rw [List.map_map]
    exact hnodup
  obtain ⟨extent, e, hmem, he, rfl⟩ := (GridTable.ofExtents_eq_some hids).1 hg
  obtain ⟨_, hcapped, hextent⟩ := List.mem_map.1 hmem
  obtain ⟨site, hsite, rfl⟩ := List.mem_map.1 hcapped
  obtain ⟨-, rfl⟩ := Prod.mk.inj hextent
  exact ⟨site, hsite, e, he, rfl⟩

/-- The edges of a plan are those around its ranges. -/
theorem edges_of_plan {c : Calculation α} {inputs : Inputs α} {p : Plan α}
    (h : c.plan inputs = .ok p) {id : Nat} {g : Grid α} (hg : p.setting.grids[id]? = some g) :
    (∃ r ∈ c.ranges inputs, g.magnitude = r.edges) ∧
      ∀ edges ∈ [g.distance, g.longitude, g.latitude],
        edges = [] ∨ ∃ r ∈ c.ranges inputs, edges = r.edges := by
  unfold ranges
  obtain ⟨⟨⟩, -, h⟩ := Fallible.bind_eq_ok.1 h
  cases hmagnitudes : SourceModel.magnitudes inputs.models with
  | none =>
    rw [hmagnitudes] at h
    cases h
  | some magnitudes =>
    rw [hmagnitudes] at h
    obtain ⟨⟨st, skipped⟩, hsetting, h⟩ := Fallible.bind_eq_ok.1 h
    obtain ⟨groups, -, h⟩ := Fallible.bind_eq_ok.1 h
    cases h
    obtain ⟨site, hsite, e, he, rfl⟩ := grid_of_settingOf hsetting hg
    refine ⟨⟨_, List.mem_append_left _ (List.mem_singleton_self _), rfl⟩, fun edges hedges => ?_⟩
    refine (Extent.eq_edges_of_edges? he edges hedges).imp_right ?_
    rintro ⟨r, hr, heq⟩
    exact ⟨r, List.mem_append_right _ (List.mem_flatMap.2 ⟨site, hsite, hr⟩), heq⟩

end

/-- A plan stays in words unless the number of tasks is none, or a quotient, or the lower end of a range
lies below the multiple of the least word. Then nothing is replaced: the number of tasks, the indices
and with them the edges, at least two around every range, are those of the plan. -/
theorem inWords_iff (c : Calculation Float) (inputs : Inputs Float) :
    (c.InWords inputs ↔
      (c.config.execution.taskCount = none → c.config.threads c.workers < 2 ^ 63) ∧
      ∀ r ∈ c.ranges inputs,
        IsWord (Scalar.floor (r.span.lo / r.width)) ∧ IsWord (Scalar.ceil (r.span.hi / r.width)) ∧
          ¬ (Scalar.floor (r.span.lo / r.width) = -2 ^ 63 ∧
            r.span.lo < multiple r.width (-2 ^ 63))) ∧
    (c.InWords inputs → c.config.taskWord? c.workers = some (c.config.taskCount c.workers) ∧
      ∀ r ∈ c.ranges inputs, ∃ first last, r.words? = some (first, last) ∧
        r.edges = multiples r.width first last ∧ 2 ≤ r.edges.length) ∧
    ∀ p, c.plan inputs = .ok p → ∀ (id : Nat) (g : Grid Float), p.setting.grids[id]? = some g →
      (∃ r ∈ c.ranges inputs, g.magnitude = r.edges) ∧
        ∀ edges ∈ [g.distance, g.longitude, g.latitude],
          edges = [] ∨ ∃ r ∈ c.ranges inputs, edges = r.edges := by
  refine ⟨?_, ?_, fun p hp id g hg => edges_of_plan hp hg⟩
  · have htasks : (c.config.taskWord? c.workers).isSome ↔
        (c.config.execution.taskCount = none → c.config.threads c.workers < 2 ^ 63) := by
      simp only [Option.isSome_iff_exists, Config.taskWord?_eq_some, exists_and_left, exists_eq,
        and_true]
    have hranges : ∀ r : EdgeRange Float, r.words?.isSome ↔
        IsWord (Scalar.floor (r.span.lo / r.width)) ∧ IsWord (Scalar.ceil (r.span.hi / r.width)) ∧
          ¬ (Scalar.floor (r.span.lo / r.width) = -2 ^ 63 ∧
            r.span.lo < multiple r.width (-2 ^ 63)) :=
      fun r => isSome_snappedWords?_iff.trans Double.wordIndices_iff
    rw [← htasks]
    simp only [← hranges]
    exact ⟨fun h => ⟨h.tasks, h.ranges⟩, fun h => ⟨h.1, h.2⟩⟩
  · intro h
    obtain ⟨n, hn⟩ := Option.isSome_iff_exists.1 h.tasks
    refine ⟨?_, fun r hr => ?_⟩
    · rw [hn, (Config.taskWord?_eq_some.1 hn).2]
    · obtain ⟨⟨first, last⟩, hx⟩ := Option.isSome_iff_exists.1 (h.ranges r hr)
      obtain ⟨hwords, hindices⟩ := snappedWords?_eq_some.1 hx
      refine ⟨first, last, hx, ?_, two_le_length_snappedEdges hwords⟩
      unfold EdgeRange.edges snappedEdges
      rw [← hindices]

namespace Sample

/-- A configuration that asks for one level. -/
def leveled : Config Float :=
  { Config.empty with
    request := ⟨none, none, none, [], Std.TreeMap.ofList [("PGA", 0.1)], []⟩ }

/-- Bins of magnitude as narrow as `2 ^ -60`. -/
def narrow : Config Float :=
  { leveled with binning := ⟨some (1 / 1152921504606846976), none, none, none⟩ }

/-- A number of threads whose double is no word. -/
def crowded : Config Float :=
  { leveled with execution := ⟨none, some (2 ^ 63), none, none, [], none, none⟩ }

/-- Two sources with one magnitude each, `8 - 2 ^ -50` and `8`. -/
def eights : Inputs Float where
  sites := ⟨[]⟩
  models := [⟨0, "model", [⟨0, "A", [
    .point ⟨"below", "A", ⟨0.1, 0.1, 10⟩, .binned 7.999999999999999 0.5 [0.001]⟩,
    .point ⟨"eight", "A", ⟨0.2, 0.1, 10⟩, .binned 8 0.5 [0.001]⟩]⟩]⟩]
  tree := ⟨[]⟩
  library := .ofList []
  curves := ⟨∅⟩

end Sample

/-- With default bins everything stays in words. -/
theorem inWords_iff_sample : InWords ⟨Sample.leveled, .sequential, 4⟩ Sample.eights ∧
    Sample.leveled.taskWord? 4 = some 8 := by
  have hwords : InWords ⟨Sample.leveled, .sequential, 4⟩ Sample.eights := by
    refine (inWords_iff _ _).1.2 ⟨fun _ => by decide, ?_⟩
    decide +kernel
  exact ⟨hwords, ((inWords_iff _ _).2.1 hwords).1⟩

/-- Accepted configurations with a plan that does not stay in words: the last index around the
magnitudes is none, and the number of tasks is none. -/
theorem not_inWords :
    (withExecutor Sample.narrow .sequential 1 = .ok ⟨Sample.narrow, .sequential, 1⟩ ∧
      (∃ p, plan ⟨Sample.narrow, .sequential, 1⟩ Sample.eights = .ok p) ∧
      Scalar.ceil (8 / Sample.narrow.magWidth) = 2 ^ 63 ∧
      ¬ InWords ⟨Sample.narrow, .sequential, 1⟩ Sample.eights) ∧
    withExecutor Sample.crowded .sequential 1 = .ok ⟨Sample.crowded, .sequential, 1⟩ ∧
      (∃ p, plan ⟨Sample.crowded, .sequential, 1⟩ Sample.eights = .ok p) ∧
      Sample.crowded.threads 1 * 2 = 2 ^ 64 ∧
      ¬ InWords ⟨Sample.crowded, .sequential, 1⟩ Sample.eights := by
  refine ⟨⟨?_, ?_, ?_, fun h => ?_⟩, ?_, ?_, ?_, fun h => ?_⟩
  · exact withExecutor_of_toBool (by decide +kernel)
  · exact Fallible.exists_of_toBool (by decide +kernel)
  · decide +kernel
  · have hranges : ∃ r ∈ ranges ⟨Sample.narrow, .sequential, 1⟩ Sample.eights, ¬ r.words?.isSome := by
      decide +kernel
    obtain ⟨r, hr, hnone⟩ := hranges
    exact hnone (h.ranges r hr)
  · exact withExecutor_of_toBool (by decide +kernel)
  · exact Fallible.exists_of_toBool (by decide +kernel)
  · rfl
  · exact absurd h.tasks (by decide)

end Calculation

end SeismicHazard
