import Mathlib.Data.List.FinRange
import Mathlib.Data.List.Induction
import SeismicHazard.Proofs.Task.Sightings

/-!
# The data of the sites of a task

The columns of a site hold its sightings, row by row.

* `WorkGroup.columns`: the columns of given sightings.
* `WorkGroup.addTo_columns`: one more sighting is one more row.
* `Task.exists_collect_iff`: when a task collects anything.
* `Task.getElem?_collect`, `Task.mem_toList_collect`: the data of the sites are those of their
  sightings.
-/

namespace SeismicHazard

/-- If every list is extended at its own index, then all of them are extended side by side. -/
theorem foldl_modify_append {β γ : Type} (f : γ → List β) (done : List (List β))
    {lists : List (List β)} {xs : List γ} (h : lists.length = xs.length) :
    (xs.zipIdx done.length).foldl (fun all x => all.modify x.2 (· ++ f x.1)) (done ++ lists) =
      done ++ List.zipWith (fun list x => list ++ f x) lists xs := by
  induction xs generalizing done lists with
  | nil => rw [List.length_eq_zero_iff.1 h]; rfl
  | cons x xs ih =>
    obtain ⟨list, lists, rfl⟩ := List.exists_cons_of_length_eq_add_one h
    have hmodify : (done ++ list :: lists).modify done.length (· ++ f x) =
        (done ++ [list ++ f x]) ++ lists := by
      simp [List.modify_eq_set_getElem?]
    have hrest := ih (done ++ [list ++ f x]) (Nat.succ.inj h)
    rw [List.length_append, List.length_singleton] at hrest
    rw [List.zipIdx_cons, List.foldl_cons, hmodify, hrest, List.append_assoc]
    rfl

theorem SiteData.foldl_extend {α γ : Type} (k : γ → Nat) (f : γ → List α) (xs : List γ)
    (d : SiteData α) : xs.foldl (fun d x => d.extend (k x) (f x)) d =
      { d with pnes := xs.foldl (fun all x => all.modify (k x) (· ++ f x)) d.pnes } := by
  induction xs generalizing d with
  | nil => rfl
  | cons x xs ih => exact ih _

section

variable {α : Type} [Scalar α] [Elementary α]

namespace WorkGroup

variable {w : WorkGroup α} {st : Setting α}

/-- The columns of sightings. -/
def columns (w : WorkGroup α) (st : Setting α) (vs : List (Sighting α)) : SiteData α where
  magnitudes := vs.map (·.rupture.magnitude)
  distances := vs.map (·.scenario.horizontal)
  longitudes := vs.map (·.scenario.node.lon)
  latitudes := vs.map (·.scenario.node.lat)
  regions := vs.map (·.region)
  pnes := w.targets.mapIdx fun i target =>
    vs.flatMap fun v => w.pnes st v (target, v.levels[i]?.join)

theorem columns_nil : w.columns st [] = .ofTargets w.targets.length := by
  have hempty : (w.targets.mapIdx fun _ _ => ([] : List α)) = List.replicate w.targets.length [] := by
    rw [List.eq_replicate_iff]
    simp
  exact congrArg (SiteData.mk [] [] [] [] []) hempty

/-- One more sighting is one more row of the columns. -/
theorem addTo_columns (vs : List (Sighting α)) (v : Sighting α) :
    w.addTo st (w.columns st vs) v = w.columns st (vs ++ [v]) := by
  have hlength : (w.columns st vs).pnes.length = (w.leveled v.levels).length := by
    simp [columns, leveled]
  have hpnes : List.zipWith (fun pnes tl => pnes ++ w.pnes st v tl) (w.columns st vs).pnes
      (w.leveled v.levels) = (w.columns st (vs ++ [v])).pnes := by
    apply List.ext_getElem
    · simp [columns, leveled]
    · intro i _ _
      simp [columns, leveled]
  have hfold := foldl_modify_append (w.pnes st v) [] hlength
  rw [List.nil_append, List.nil_append, List.length_nil, hpnes] at hfold
  have hpush : ((w.columns st vs).push v.seen).pnes = (w.columns st vs).pnes := rfl
  unfold addTo
  rw [SiteData.foldl_extend, hpush, hfold]
  simp [columns, SiteData.push, Sighting.seen]

theorem ruptures_columns (vs : List (Sighting α)) :
    (w.columns st vs).ruptures = vs.map (·.seen) := by
  have hlength : (w.columns st vs).length = vs.length := List.length_map _
  have hrow : ∀ i ∈ List.finRange vs.length,
      ((w.columns st vs).rupture? ∘ Fin.val) i = some (vs.get i).seen := by
    intro i _
    simp [SiteData.rupture?, columns, Sighting.seen]
  have hall : ((List.finRange vs.length).map vs.get).map (·.seen) = vs.map (·.seen) := by
    rw [List.map_get_finRange]
  rw [SiteData.ruptures, hlength, ← List.map_coe_finRange_eq_range, List.filterMap_map,
    List.filterMap_congr hrow, List.filterMap_eq_map', ← hall, List.map_map]
  rfl

end WorkGroup

namespace Task

open Std (TreeMap)

variable [TotalOrder α] {t : Task α} {site : Nat}

/-- The sightings at a site. -/
def sightingsAt (t : Task α) (site : Nat) : List (Sighting α) :=
  t.sightings.filter (·.site.id == site)

/-- The data of a site. -/
def dataAt (t : Task α) (site : Nat) : SiteData α := t.work.columns t.setting (t.sightingsAt site)

theorem mem_sightingsAt {v : Sighting α} : v ∈ t.sightingsAt site ↔
    (∃ s ∈ t.work.sources, v ∈ t.work.sightings t.setting s) ∧ v.site.id = site := by
  simp [sightingsAt, sightings]

/-- A site with a sighting has a grid and levels. -/
theorem levels_of_mem_sightingsAt {v : Sighting α} (h : v ∈ t.sightingsAt site) :
    (∃ g, t.setting.grids[site]? = some g) ∧ t.work.levels[site]? = some v.levels := by
  obtain ⟨⟨s, -, hv⟩, hid⟩ := mem_sightingsAt.1 h
  obtain ⟨r, -, place, hplace, hsighting⟩ := WorkGroup.mem_sightings.1 hv
  obtain ⟨-, hsite, -, hlevels, -⟩ := WorkGroup.eq_of_mem_sighting? hsighting
  subst hsite
  subst hid
  have hgrid := (List.mem_filter.1 hplace).2
  rw [TreeMap.contains_eq_isSome_getElem?] at hgrid
  exact ⟨Option.isSome_iff_exists.1 hgrid, hlevels⟩

theorem levels_eq_of_mem_sightingsAt {levels : List (Option α)}
    (hlevels : t.work.levels[site]? = some levels) {v : Sighting α} (h : v ∈ t.sightingsAt site) :
    v.levels = levels := by
  have hv := (levels_of_mem_sightingsAt h).2
  rw [hlevels] at hv
  exact (Option.some.inj hv).symm

omit [TotalOrder α] in
/-- What was seen at a site. -/
theorem getElem?_foldl_see (t : Task α) (vs : List (Sighting α)) (site : Nat) :
    (vs.foldl t.see ∅)[site]? =
      if vs.filter (·.site.id == site) = [] then none
      else some (t.work.columns t.setting (vs.filter (·.site.id == site))) := by
  induction vs using List.reverseRecOn with
  | nil => rfl
  | append_singleton vs v ih =>
    rw [List.foldl_append, List.foldl_cons, List.foldl_nil, see, List.filter_append]
    by_cases hid : v.site.id = site
    · subst hid
      have hdata : (vs.foldl t.see ∅).getD v.site.id (.ofTargets t.work.targets.length) =
          t.work.columns t.setting (vs.filter (·.site.id == v.site.id)) := by
        rw [TreeMap.getD_eq_getD_getElem?, ih]
        split
        · next hnil => rw [hnil, WorkGroup.columns_nil]; rfl
        · rfl
      have hnew : [v].filter (·.site.id == v.site.id) = [v] := by simp
      rw [TreeMap.getElem?_insert_self, hdata, WorkGroup.addTo_columns, hnew,
        if_neg (List.append_ne_nil_of_right_ne_nil _ (List.cons_ne_nil _ _))]
    · have hnew : [v].filter (·.site.id == site) = [] := by simp [hid]
      rw [TreeMap.getElem?_insert, if_neg (by simpa using hid), ih, hnew, List.append_nil]

variable [Std.LawfulEqCmp (TotalOrder.cmp : α → α → Ordering)]

theorem exists_collect_iff : (∃ data, t.collect = .ok data) ↔
    ∀ s ∈ t.work.sources, (t.setting.regionIndex? s.region).isSome ∧
      ∀ v ∈ t.work.sightings t.setting s, t.work.Answered t.setting v := by
  simp only [collect_eq_ok]
  constructor
  · rintro ⟨data, h, -⟩
    exact h
  · intro h
    exact ⟨_, h, rfl⟩

theorem getElem?_collect {data : TreeMap Nat (SiteData α)} (h : t.collect = .ok data) (site : Nat) :
    data[site]? = if t.sightingsAt site = [] then none else some (t.dataAt site) := by
  rw [(collect_eq_ok.1 h).2, getElem?_foldl_see]
  rfl

theorem mem_toList_collect {data : TreeMap Nat (SiteData α)} (h : t.collect = .ok data)
    {d : SiteData α} :
    (site, d) ∈ data.toList ↔ t.sightingsAt site ≠ [] ∧ d = t.dataAt site := by
  rw [TreeMap.mem_toList_iff_getElem?_eq_some, getElem?_collect h]
  by_cases hnil : t.sightingsAt site = []
  · simp [hnil]
  · simp [hnil, eq_comm]

end Task

end

end SeismicHazard
