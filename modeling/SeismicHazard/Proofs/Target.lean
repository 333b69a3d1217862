import Mathlib.Data.List.Induction
import Mathlib.Data.List.Nodup
import SeismicHazard.GroundMotion.Model
import SeismicHazard.LogicTree.Basic
import SeismicHazard.Proofs.Fallible
import SeismicHazard.Target

/-!
# The targets of a group of sources

A group is asked about every realization of its source model, under the ground-motion model that the
realization names for the region of the group.

* `LogicTree.getElem?_byGroundMotion`: the realizations under a ground-motion model.
* `RegionModels.get_of_make`: the models that a region takes from the library.
* `Target.mem_all`, `Target.nodup_all`: the targets, each of them once.
* `Target.getElem?_levels`: their levels at a site.
-/

namespace SeismicHazard

open Std (TreeMap)

/-! ### Realizations by ground-motion model -/

namespace LogicTree

section

variable {α : Type} {t : LogicTree α} {region : String} {sourceModel : Nat}
  {byModel : TreeMap String (List Nat)}

/-- The ordinals of the realizations of a source model that name a ground-motion model. -/
def naming (t : LogicTree α) (region : String) (sourceModel : Nat) (name : String) : List Nat :=
  ((t.ofModel sourceModel).filter fun r => r.groundMotion[region]? = some name).map (·.ordinal)

theorem mem_naming {name : String} {ordinal : Nat} : ordinal ∈ t.naming region sourceModel name ↔
    ∃ r ∈ t.ofModel sourceModel, r.groundMotion[region]? = some name ∧ r.ordinal = ordinal := by
  simp [naming, and_assoc]

/-- If the realizations can be sorted by ground-motion model, all of them name one. -/
theorem exists_model_of_byGroundMotion (h : t.byGroundMotion region sourceModel = .ok byModel)
    {r : Realization α} (hr : r ∈ t.ofModel sourceModel) :
    ∃ name, r.groundMotion[region]? = some name := by
  obtain ⟨groups, groups', hstep⟩ := Fallible.exists_of_foldlM_eq_ok h r hr
  split at hstep
  · next name hname => exact ⟨name, hname⟩
  · cases hstep

/-- The realizations under a ground-motion model are those that name it, in order. -/
theorem getElem?_byGroundMotion (h : t.byGroundMotion region sourceModel = .ok byModel)
    (name : String) : byModel[name]? = if t.naming region sourceModel name = [] then none
      else some (t.naming region sourceModel name) := by
  unfold byGroundMotion at h
  unfold naming
  generalize t.ofModel sourceModel = realizations at h ⊢
  induction realizations using List.reverseRecOn generalizing byModel with
  | nil =>
    cases h
    simp
  | append_singleton rs r ih =>
    rw [List.foldlM_append, Fallible.bind_eq_ok] at h
    obtain ⟨groups, hgroups, h⟩ := h
    have ih := ih hgroups
    simp only [List.foldlM_cons, List.foldlM_nil, Fallible.bind_eq_ok] at h
    obtain ⟨_, hstep, h⟩ := h
    cases h
    split at hstep
    · next own hown =>
      cases hstep
      rw [addOrdinal, TreeMap.getElem?_alter, List.filter_append, List.map_append]
      simp only [Std.LawfulEqOrd.compare_eq_iff_eq]
      by_cases hname : own = name
      · subst hname
        rw [if_pos rfl, ih]
        by_cases hnil : (rs.filter fun r => r.groundMotion[region]? = some own).map
          (·.ordinal) = [] <;> simp [hnil, hown]
      · rw [if_neg hname, ih]
        simp [hown, hname]
    · cases hstep

theorem mem_of_mem_toList (h : t.byGroundMotion region sourceModel = .ok byModel) {name : String}
    {ordinals : List Nat} : (name, ordinals) ∈ byModel.toList ↔
      ordinals ≠ [] ∧ ordinals = t.naming region sourceModel name := by
  rw [TreeMap.mem_toList_iff_getElem?_eq_some, getElem?_byGroundMotion h]
  by_cases hnil : t.naming region sourceModel name = []
  · simp [hnil]
  · simp only [hnil, if_false, Option.some.injEq]
    constructor
    · rintro rfl
      exact ⟨hnil, rfl⟩
    · rintro ⟨-, rfl⟩
      rfl

theorem mem_keys_of_naming (h : t.byGroundMotion region sourceModel = .ok byModel) {name : String}
    {ordinal : Nat} (ho : ordinal ∈ t.naming region sourceModel name) : name ∈ byModel.keys := by
  rw [TreeMap.mem_keys, TreeMap.mem_iff_isSome_getElem?, getElem?_byGroundMotion h,
    if_neg (List.ne_nil_of_mem ho)]
  rfl

end

end LogicTree

/-! ### The models of a region -/

/-- A table of a function, in which a key may occur more than once. -/
theorem getElem?_ofList_map {κ β : Type} [Ord κ] [Std.TransOrd κ] [Std.LawfulEqOrd κ]
    {keys : List κ} (f : κ → β) {k : κ} (hk : k ∈ keys) :
    (TreeMap.ofList (keys.map fun k => (k, f k)))[k]? = some (f k) := by
  suffices key : ∀ m : TreeMap κ β, k ∈ keys ∨ m[k]? = some (f k) →
      (m.insertMany (keys.map fun k => (k, f k)))[k]? = some (f k) by
    rw [TreeMap.ofList_eq_insertMany_empty]
    exact key ∅ (.inl hk)
  clear hk
  induction keys with
  | nil =>
    intro m hm
    exact hm.resolve_left List.not_mem_nil
  | cons k' keys ih =>
    intro m hm
    rw [List.map_cons, TreeMap.insertMany_cons]
    refine ih _ ?_
    by_cases hk' : k' = k
    · subst hk'
      exact .inr TreeMap.getElem?_insert_self
    · rw [TreeMap.getElem?_insert, if_neg (mt Std.LawfulEqCmp.eq_of_compare hk')]
      exact hm.imp_left fun h => (List.mem_cons.1 h).resolve_left (Ne.symm hk')

/-- A region takes the models that it names from the library. -/
theorem RegionModels.get_of_make {α : Type} {region : String} {names : List String}
    {l : ModelLibrary α} {models : RegionModels α} (h : make region names l = .ok models)
    {name : String} (hname : name ∈ names) :
    ∃ model, l.get name = .ok model ∧ models.get name = .ok model := by
  have hget : ∀ name' model, l.get name' = .ok model ↔ l.byName[name']? = some model := by
    intro name' model
    unfold ModelLibrary.get
    cases l.byName[name']? <;> simp
  have hnamed : ∀ name' ∈ names, ∀ y, (do return (name', ← l.get name') : Except (Error α) _) =
      .ok y ↔ (l.byName[name']?).isSome ∧
        y = (name', (l.byName[name']?).getD (.constant name' [])) := by
    intro name' _ y
    rw [Fallible.bind_eq_ok]
    constructor
    · rintro ⟨model, hmodel, h⟩
      cases h
      rw [(hget name' model).1 hmodel]
      exact ⟨rfl, rfl⟩
    · rintro ⟨hsome, rfl⟩
      obtain ⟨model, hmodel⟩ := Option.isSome_iff_exists.1 hsome
      refine ⟨model, (hget name' model).2 hmodel, ?_⟩
      rw [hmodel]
      rfl
  unfold make at h
  simp only [Fallible.bind_eq_ok, Fallible.mapM_eq_ok_iff hnamed] at h
  obtain ⟨_, ⟨hall, rfl⟩, h⟩ := h
  cases h
  obtain ⟨model, hmodel⟩ := Option.isSome_iff_exists.1 (hall name hname)
  refine ⟨model, (hget name model).2 hmodel, ?_⟩
  unfold RegionModels.get ModelLibrary.get
  rw [getElem?_ofList_map _ hname, hmodel]
  rfl

/-! ### Targets -/

namespace Target

section

variable {α : Type} {t : LogicTree α} {region : String} {sourceModel : Nat}
  {byModel : TreeMap String (List Nat)} {imts : List String} {thresholds : List (Option α)}

/-- A target asks about a realization under the ground-motion model that the realization names. -/
theorem mem_all (h : t.byGroundMotion region sourceModel = .ok byModel) {target : Target α} :
    target ∈ all byModel imts thresholds ↔
      target.realization ∈ t.naming region sourceModel target.model ∧ target.imt ∈ imts ∧
        target.poe ∈ thresholds := by
  obtain ⟨poe, model, imt, realization⟩ := target
  simp only [all, List.mem_flatMap, Prod.exists, LogicTree.mem_of_mem_toList h, List.mem_map,
    mk.injEq]
  constructor
  · rintro ⟨_, _, ⟨-, rfl⟩, _, hordinal, _, himt, _, hpoe, rfl, rfl, rfl, rfl⟩
    exact ⟨hordinal, himt, hpoe⟩
  · rintro ⟨hordinal, himt, hpoe⟩
    exact ⟨_, _, ⟨List.ne_nil_of_mem hordinal, rfl⟩, _, hordinal, _, himt, _, hpoe, rfl, rfl, rfl,
      rfl⟩

/-- No target is asked about twice. -/
theorem nodup_all (h : t.byGroundMotion region sourceModel = .ok byModel)
    (hordinals : (t.realizations.map (·.ordinal)).Nodup) (himts : imts.Nodup)
    (hthresholds : thresholds.Nodup) : (all byModel imts thresholds).Nodup := by
  have hnaming : ∀ name, (t.naming region sourceModel name).Nodup := fun name =>
    hordinals.sublist ((List.filter_sublist.trans List.filter_sublist).map _)
  have hkeys : byModel.toList.Pairwise fun p q => p.1 ≠ q.1 := by
    rw [← List.pairwise_map, ← List.nodup_iff_pairwise_ne, TreeMap.map_fst_toList_eq_keys]
    exact TreeMap.nodup_keys
  refine List.nodup_flatMap.2 ⟨?_, hkeys.imp fun hne target hp hq => ?_⟩
  · rintro ⟨model, ordinals⟩ hmem
    obtain ⟨-, rfl⟩ := (LogicTree.mem_of_mem_toList h).1 hmem
    refine List.nodup_flatMap.2
      ⟨fun ordinal _ => ?_, (hnaming model).imp fun hne target ho ho' => ?_⟩
    · refine List.nodup_flatMap.2 ⟨fun imt _ => ?_, himts.imp fun hne target hi hi' => ?_⟩
      · exact hthresholds.map fun poe poe' heq => (mk.inj heq).1
      · obtain ⟨_, -, rfl⟩ := List.mem_map.1 hi
        obtain ⟨_, -, heq⟩ := List.mem_map.1 hi'
        exact hne (mk.inj heq).2.2.1.symm
    · simp only [List.mem_flatMap, List.mem_map] at ho ho'
      obtain ⟨_, -, _, -, rfl⟩ := ho
      obtain ⟨_, -, _, -, heq⟩ := ho'
      exact hne (mk.inj heq).2.2.2.symm
  · simp only [List.mem_flatMap, List.mem_map] at hp hq
    obtain ⟨_, -, _, -, _, -, rfl⟩ := hp
    obtain ⟨_, -, _, -, _, -, heq⟩ := hq
    exact hne (mk.inj heq).2.1.symm

theorem getElem?_levels [Scalar α] {fixed : TreeMap String α} {curves : CurveTable α}
    {sites : Sites α} (targets : List (Target α)) {site : Site α}
    (hsite : site ∈ sites.toList) : (levels fixed curves sites targets)[site.id]? =
      some (targets.map (level? fixed curves site.id)) := by
  have hlevels : levels fixed curves sites targets = TreeMap.ofList (sites.ids.map fun id =>
      (id, targets.map (level? fixed curves id))) := by
    rw [levels, Sites.ids, List.map_map]
    rfl
  rw [hlevels]
  exact getElem?_ofList_map _ (List.mem_map_of_mem hsite)

end

end Target

end SeismicHazard
