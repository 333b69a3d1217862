import SeismicHazard.Proofs.Fallible
import SeismicHazard.Task.Collection

/-!
# Ruptures as a task sees them

A rupture that counts for a site is a sighting. What a task collects are the rows of its sightings, and
they depend on the task only through its setting and the models, targets and levels of its work.

* `WorkGroup.sightings`: the sightings of a source.
* `WorkGroup.Answered`: the models answer everything that is asked about a sighting.
* `Task.addPnes_eq`: what is remembered of a model is what it would answer again.
* `Task.addRupture_eq_ok`, `Task.addSource_eq_ok`: what is added for a rupture and for a source.
* `Task.collect_eq_ok`: what a task collects, and when it collects anything.
-/

namespace SeismicHazard

/-- A rupture that counts for a site, with the levels of the site and the index of the region. -/
structure Sighting (α : Type) where
  rupture : Rupture α
  site : Site α
  scenario : Scenario α
  levels : List (Option α)
  region : Nat

/-- The coordinates of a sighting. -/
def Sighting.seen {α : Type} (v : Sighting α) : SiteRupture α :=
  ⟨v.rupture.magnitude, v.scenario.horizontal, v.scenario.node.lon, v.scenario.node.lat, v.region⟩

namespace WorkGroup

variable {α : Type}

/-- The answer of the model of a target, if it has one value for every epsilon bin. -/
def answer? (w : WorkGroup α) (st : Setting α) (s : Scenario α) (target : Target α) (level : α) :
    Option (List α) :=
  match w.models.get target.model with
  | .error _ => none
  | .ok model =>
    match model.exceedance s ⟨target.imt, level, st.truncation, st.epsilonEdges⟩ with
    | .error _ => none
    | .ok poes => if poes.length = st.epsilonBins then some poes else none

theorem answer?_eq_some {w : WorkGroup α} {st : Setting α} {s : Scenario α} {target : Target α}
    {level : α} {poes : List α} : w.answer? st s target level = some poes ↔
      ∃ model, w.models.get target.model = .ok model ∧
        model.exceedance s ⟨target.imt, level, st.truncation, st.epsilonEdges⟩ = .ok poes ∧
        poes.length = st.epsilonBins := by
  unfold answer?
  cases w.models.get target.model with
  | error e => simp
  | ok model =>
    cases hpoes : model.exceedance s ⟨target.imt, level, st.truncation, st.epsilonEdges⟩ with
    | error e => simp [hpoes]
    | ok poes' =>
      simp only [hpoes, Option.ite_none_right_eq_some, Option.some.injEq, Except.ok.injEq,
        exists_eq_left']
      constructor
      · rintro ⟨hlength, rfl⟩
        exact ⟨rfl, hlength⟩
      · rintro ⟨rfl, hlength⟩
        exact ⟨hlength, rfl⟩

/-- The targets with their levels at a site. -/
def leveled (w : WorkGroup α) (levels : List (Option α)) : List (Target α × Option α) :=
  w.targets.mapIdx fun i target => (target, levels[i]?.join)

/-- Levels that are told by the targets are those of the targets. -/
theorem leveled_map (w : WorkGroup α) (f : Target α → Option α) :
    w.leveled (w.targets.map f) = w.targets.map fun t => (t, f t) := by
  apply List.ext_getElem
  · simp [leveled]
  · intro i hi _
    have hi' : i < w.targets.length := by simpa [leveled] using hi
    simp [leveled, List.getElem?_eq_getElem hi']

end WorkGroup

section

variable {α : Type} [Scalar α] [Elementary α]

/-- The index of the region of a source; zero if the region is unknown. -/
def Setting.regionOf (st : Setting α) (s : Source α) : Nat := (st.regionIndex? s.region).getD 0

/-- The sites with a grid that a source may affect. -/
def Setting.sitesOf (st : Setting α) (s : Source α) : List (Site α) :=
  (s.sitesInReach st.sites).filter fun site => st.grids.contains site.id

namespace WorkGroup

/-- The probabilities that a rupture leads to no exceedance, by epsilon bin. -/
def pnes? (w : WorkGroup α) (st : Setting α) (r : Rupture α) (s : Scenario α) :
    Target α × Option α → Option (List α)
  | (_, none) => some (List.replicate st.epsilonBins 1)
  | (target, some level) =>
    (w.answer? st s target level).map fun poes => poes.map (r.nonExceedance · st.time)

/-- The probabilities for a sighting; there are none if the model does not answer. -/
def pnes (w : WorkGroup α) (st : Setting α) (v : Sighting α) (tl : Target α × Option α) : List α :=
  (w.pnes? st v.rupture v.scenario tl).getD []

/-- Whether the models answer everything that is asked about a sighting. -/
def Answered (w : WorkGroup α) (st : Setting α) (v : Sighting α) : Prop :=
  ∀ tl ∈ w.leveled v.levels, (w.pnes? st v.rupture v.scenario tl).isSome

/-- The data of a site with the row of a sighting. -/
def addTo (w : WorkGroup α) (st : Setting α) (data : SiteData α) (v : Sighting α) : SiteData α :=
  (w.leveled v.levels).zipIdx.foldl (fun data x => data.extend x.2 (w.pnes st v x.1))
    (data.push v.seen)

variable [TotalOrder α]

/-- The sighting of a rupture at a site, if the rupture counts there and the site has levels. -/
def sighting? (w : WorkGroup α) (region : Nat) (r : Rupture α) (site : Site α) :
    Option (Sighting α) :=
  match Scenario.ofRupture? r site, w.levels[site.id]? with
  | some s, some levels => some ⟨r, site, s, levels, region⟩
  | _, _ => none

/-- The sightings of a source, rupture by rupture. -/
def sightings (w : WorkGroup α) (st : Setting α) (s : Source α) : List (Sighting α) :=
  s.ruptures.flatMap fun r => (st.sitesOf s).filterMap (w.sighting? (st.regionOf s) r)

theorem eq_of_mem_sighting? {w : WorkGroup α} {region : Nat} {r : Rupture α} {site : Site α}
    {v : Sighting α} (h : v ∈ w.sighting? region r site) :
    v.rupture = r ∧ v.site = site ∧ Scenario.ofRupture? r site = some v.scenario ∧
      w.levels[site.id]? = some v.levels ∧ v.region = region := by
  unfold sighting? at h
  split at h
  · next s levels hs hlevels =>
    cases h
    exact ⟨rfl, rfl, hs, hlevels, rfl⟩
  · cases h

theorem mem_sightings {w : WorkGroup α} {st : Setting α} {s : Source α} {v : Sighting α} :
    v ∈ w.sightings st s ↔ ∃ r ∈ s.ruptures, ∃ site ∈ st.sitesOf s,
      w.sighting? (st.regionOf s) r site = some v := by
  simp only [sightings, List.mem_flatMap, List.mem_filterMap]

omit [TotalOrder α]

theorem length_pnes? {w : WorkGroup α} {st : Setting α} {r : Rupture α} {s : Scenario α}
    {tl : Target α × Option α} {pnes : List α} (h : w.pnes? st r s tl = some pnes) :
    pnes.length = st.epsilonBins := by
  obtain ⟨target, _ | level⟩ := tl
  · cases h
    simp
  · obtain ⟨poes, hpoes, rfl⟩ := Option.map_eq_some_iff.1 h
    obtain ⟨_, -, -, hlength⟩ := answer?_eq_some.1 hpoes
    rw [List.length_map, hlength]

/-- The probabilities of an answered sighting, one for every epsilon bin. -/
theorem length_pnes {w : WorkGroup α} {st : Setting α} {v : Sighting α} (h : w.Answered st v)
    {tl : Target α × Option α} (htl : tl ∈ w.leveled v.levels) :
    (w.pnes st v tl).length = st.epsilonBins := by
  obtain ⟨pnes, hpnes⟩ := Option.isSome_iff_exists.1 (h tl htl)
  rw [WorkGroup.pnes, hpnes, Option.getD_some]
  exact length_pnes? hpnes

end WorkGroup

namespace Task

open Std (TreeMap)

variable {t : Task α} {source : Source α} {r : Rupture α} {s : Scenario α}

/-! ### Models that are asked anew -/

/-- The probabilities for a target with its level, asked for anew. -/
def fresh (t : Task α) (source : Source α) (r : Rupture α) (s : Scenario α) :
    Target α × Option α → Except (Error α) (List α)
  | (_, none) => .ok (List.replicate t.setting.epsilonBins 1)
  | (target, some level) => t.pnesAt source r s target level

/-- The data with the probabilities for one more target. -/
def addFresh (t : Task α) (source : Source α) (r : Rupture α) (s : Scenario α) (data : SiteData α)
    (target : (Target α × Option α) × Nat) : Except (Error α) (SiteData α) := do
  return data.extend target.2 (← t.fresh source r s target.1)

theorem pnesAt_eq_ok {target : Target α} {level : α} {pnes : List α} :
    t.pnesAt source r s target level = .ok pnes ↔
      t.work.pnes? t.setting r s (target, some level) = some pnes := by
  simp only [pnesAt, WorkGroup.pnes?, Option.map_eq_some_iff, WorkGroup.answer?_eq_some,
    Fallible.bind_eq_ok, Fallible.mapError_eq_ok]
  constructor
  · rintro ⟨model, hmodel, poes, hpoes, h⟩
    split at h
    · cases h
    · next hlength =>
      cases h
      exact ⟨poes, ⟨model, hmodel, hpoes, not_not.1 hlength⟩, rfl⟩
  · rintro ⟨poes, ⟨model, hmodel, hpoes, hlength⟩, rfl⟩
    refine ⟨model, hmodel, poes, hpoes, ?_⟩
    rw [if_neg (not_not.2 hlength)]
    rfl

theorem fresh_eq_ok {tl : Target α × Option α} {pnes : List α} :
    t.fresh source r s tl = .ok pnes ↔ t.work.pnes? t.setting r s tl = some pnes := by
  obtain ⟨target, _ | level⟩ := tl
  · simp [fresh, WorkGroup.pnes?]
  · exact pnesAt_eq_ok

/-- The row of an answered sighting. -/
theorem foldlM_addFresh_eq_ok {v : Sighting α} {d data : SiteData α} :
    (t.work.leveled v.levels).zipIdx.foldlM (t.addFresh source v.rupture v.scenario)
        (data.push v.seen) = .ok d ↔
      t.work.Answered t.setting v ∧ d = t.work.addTo t.setting data v := by
  have hstep : ∀ x ∈ (t.work.leveled v.levels).zipIdx, ∀ data d,
      t.addFresh source v.rupture v.scenario data x = .ok d ↔
        (t.work.pnes? t.setting v.rupture v.scenario x.1).isSome ∧
          d = data.extend x.2 (t.work.pnes t.setting v x.1) := by
    intro x _ data d
    simp only [addFresh, Fallible.bind_eq_ok, fresh_eq_ok, WorkGroup.pnes]
    cases t.work.pnes? t.setting v.rupture v.scenario x.1 with
    | none => simp
    | some pnes =>
      constructor
      · rintro ⟨_, h, hd⟩
        cases h
        cases hd
        exact ⟨rfl, rfl⟩
      · rintro ⟨-, rfl⟩
        exact ⟨pnes, rfl, rfl⟩
  have hall : (∀ x ∈ (t.work.leveled v.levels).zipIdx,
      (t.work.pnes? t.setting v.rupture v.scenario x.1).isSome) ↔ t.work.Answered t.setting v := by
    unfold WorkGroup.Answered
    rw [← List.zipIdx_map_fst 0 (t.work.leveled v.levels), List.forall_mem_map,
      List.zipIdx_map_fst]
  rw [Fallible.foldlM_eq_ok_iff hstep, hall]
  rfl

/-! ### What is remembered -/

/-- What is remembered is what a model would answer to any target of its measure and level. -/
def Remembers (t : Task α) (source : Source α) (r : Rupture α) (s : Scenario α)
    (memo : List (Remembered α)) : Prop :=
  ∀ m ∈ memo, ∀ target : Target α, target.model = m.model → target.imt = m.imt →
    t.pnesAt source r s target m.level = .ok m.pnes

section

variable [TotalOrder α] [Std.LawfulEqCmp (TotalOrder.cmp : α → α → Ordering)]

theorem remembered?_spec {memo : List (Remembered α)} (h : t.Remembers source r s memo)
    {target : Target α} {level : α} {pnes : List α}
    (hfound : remembered? memo target level = some pnes) :
    t.pnesAt source r s target level = .ok pnes := by
  obtain ⟨m, hm, rfl⟩ := Option.map_eq_some_iff.1 hfound
  have hmem := List.mem_of_find?_eq_some hm
  have hmatch := List.find?_some hm
  simp only [Bool.and_eq_true, beq_iff_eq] at hmatch
  obtain ⟨⟨hmodel, himt⟩, hlevel⟩ := hmatch
  rw [← Std.LawfulEqCmp.eq_of_compare hlevel]
  exact h m hmem target hmodel.symm himt.symm

/-- A model may be asked once for every measure and level, or again for every target. -/
theorem addPnes_eq {memo : List (Remembered α)} (h : t.Remembers source r s memo) (i : Nat)
    (targets : List (Target α × Option α)) (data : SiteData α) :
    t.addPnes source r s i memo targets data =
      (targets.zipIdx i).foldlM (t.addFresh source r s) data := by
  induction targets generalizing memo i data with
  | nil => rfl
  | cons tl targets ih =>
    rw [List.zipIdx_cons, List.foldlM_cons]
    obtain ⟨target, _ | level⟩ := tl
    · exact ih h (i + 1) _
    · rw [addPnes]
      cases hfound : remembered? memo target level with
      | some pnes =>
        simp only [addFresh, fresh, remembered?_spec h hfound]
        exact ih h (i + 1) _
      | none =>
        cases hpnes : t.pnesAt source r s target level with
        | error e => simp only [addFresh, fresh, hpnes]; rfl
        | ok pnes =>
          have hmemo : t.Remembers source r s (⟨target.model, target.imt, level, pnes⟩ :: memo) := by
            intro m hm other hmodel himt
            rcases List.mem_cons.1 hm with rfl | hm
            · rw [← hpnes]
              simp only [pnesAt, query, hmodel, himt]
            · exact h m hm other hmodel himt
          simp only [addFresh, fresh, hpnes]
          exact ih hmemo (i + 1) _

/-- What a rupture adds at a site, with models that are asked anew. -/
theorem addRupture_eq (t : Task α) (source : Source α) (region : Nat) (r : Rupture α)
    (found : TreeMap Nat (SiteData α)) (site : Site α) :
    t.addRupture source region r found site =
      match t.work.sighting? region r site with
      | none => .ok found
      | some v => do
        let data := found.getD site.id (.ofTargets t.work.targets.length)
        return found.insert site.id (← (t.work.leveled v.levels).zipIdx.foldlM
          (t.addFresh source v.rupture v.scenario) (data.push v.seen)) := by
  unfold addRupture WorkGroup.sighting?
  cases Scenario.ofRupture? r site with
  | none => rfl
  | some s =>
    cases t.work.levels[site.id]? with
    | none => rfl
    | some levels =>
      have hempty : t.Remembers source r s [] := fun m hm => absurd hm List.not_mem_nil
      simp only [addPnes_eq hempty]
      rfl

end

/-- Without a site nothing is looked at, which needs no case of its own. -/
theorem addSource_of_region [TotalOrder α] {region : Nat}
    (h : t.setting.regionIndex? source.region = some region) (found : TreeMap Nat (SiteData α)) :
    t.addSource found source = source.ruptures.foldlM (fun found r =>
      (t.sitesOf source).foldlM (t.addRupture source region r) found) found := by
  unfold addSource
  rw [h]
  cases t.sitesOf source with
  | nil =>
    have hidle : source.ruptures.foldlM (fun found _ => pure found) found =
        (pure (source.ruptures.foldl (fun found _ => found) found) : Except (Error α) _) :=
      List.foldlM_pure
    rw [List.foldl_fixed] at hidle
    exact hidle.symm
  | cons site others => rfl

/-! ### The sightings of a task -/

/-- What was found with one more sighting. -/
def see (t : Task α) (found : TreeMap Nat (SiteData α)) (v : Sighting α) :
    TreeMap Nat (SiteData α) :=
  found.insert v.site.id
    (t.work.addTo t.setting (found.getD v.site.id (.ofTargets t.work.targets.length)) v)

variable [TotalOrder α]

/-- The sightings of all sources of a task. -/
def sightings (t : Task α) : List (Sighting α) :=
  t.work.sources.flatMap (t.work.sightings t.setting)

/-- What is seen in the order of the ruptures of a source and of the sites. -/
theorem foldl_see_sightings (t : Task α) (source : Source α) (found : TreeMap Nat (SiteData α)) :
    (t.work.sightings t.setting source).foldl t.see found =
      source.ruptures.foldl (fun found r => (t.setting.sitesOf source).foldl (fun found site =>
        (t.work.sighting? (t.setting.regionOf source) r site).elim found (t.see found)) found)
          found := by
  simp only [WorkGroup.sightings, List.foldl_flatMap, List.foldl_filterMap]
  congr! with _ r found site
  cases t.work.sighting? (t.setting.regionOf source) r site <;> rfl

variable [Std.LawfulEqCmp (TotalOrder.cmp : α → α → Ordering)]
  {found found' : TreeMap Nat (SiteData α)}

theorem addRupture_eq_ok {region : Nat} {site : Site α} :
    t.addRupture source region r found site = .ok found' ↔
      (∀ v ∈ t.work.sighting? region r site, t.work.Answered t.setting v) ∧
        found' = (t.work.sighting? region r site).elim found (t.see found) := by
  rw [addRupture_eq]
  cases hv : t.work.sighting? region r site with
  | none => simp [eq_comm]
  | some v =>
    have hsite := (WorkGroup.eq_of_mem_sighting? hv).2.1
    simp only [Fallible.bind_eq_ok, foldlM_addFresh_eq_ok, Option.mem_def, Option.some.injEq,
      forall_eq', Option.elim_some, see, hsite]
    constructor
    · rintro ⟨_, ⟨hanswered, rfl⟩, h⟩
      cases h
      exact ⟨hanswered, rfl⟩
    · rintro ⟨hanswered, rfl⟩
      exact ⟨_, ⟨hanswered, rfl⟩, rfl⟩

/-- What a source adds. -/
theorem addSource_eq_ok : t.addSource found source = .ok found' ↔
    ((t.setting.regionIndex? source.region).isSome ∧
      ∀ v ∈ t.work.sightings t.setting source, t.work.Answered t.setting v) ∧
      found' = (t.work.sightings t.setting source).foldl t.see found := by
  cases hregion : t.setting.regionIndex? source.region with
  | none =>
    unfold addSource
    rw [hregion]
    constructor
    · intro h
      cases h
    · rintro ⟨⟨h, -⟩, -⟩
      cases h
  | some region =>
    have hindex : t.setting.regionOf source = region := by
      rw [Setting.regionOf, hregion]
      rfl
    have hsites : t.sitesOf source = t.setting.sitesOf source := rfl
    have hrupture : ∀ r ∈ source.ruptures, ∀ found found',
        (t.setting.sitesOf source).foldlM (t.addRupture source region r) found = .ok found' ↔
        (∀ site ∈ t.setting.sitesOf source, ∀ v ∈ t.work.sighting? region r site,
          t.work.Answered t.setting v) ∧
        found' = (t.setting.sitesOf source).foldl (fun found site =>
          (t.work.sighting? region r site).elim found (t.see found)) found :=
      fun r _ found found' => Fallible.foldlM_eq_ok_iff fun site _ _ _ => addRupture_eq_ok
    have hanswered : (∀ v ∈ t.work.sightings t.setting source, t.work.Answered t.setting v) ↔
        ∀ r ∈ source.ruptures, ∀ site ∈ t.setting.sitesOf source,
          ∀ v ∈ t.work.sighting? region r site, t.work.Answered t.setting v := by
      simp only [WorkGroup.mem_sightings, hindex]
      constructor
      · intro h r hr site hsite v hv
        exact h v ⟨r, hr, site, hsite, hv⟩
      · rintro h v ⟨r, hr, site, hsite, hv⟩
        exact h r hr site hsite v hv
    rw [addSource_of_region hregion, hsites, Fallible.foldlM_eq_ok_iff hrupture, hanswered,
      foldl_see_sightings, hindex]
    simp only [Option.isSome_some, true_and]

/-- What a task collects is what is seen at the sites, one sighting after the other. -/
theorem collect_eq_ok : t.collect = .ok found ↔
    (∀ s ∈ t.work.sources, (t.setting.regionIndex? s.region).isSome ∧
      ∀ v ∈ t.work.sightings t.setting s, t.work.Answered t.setting v) ∧
      found = t.sightings.foldl t.see ∅ := by
  unfold collect
  rw [Fallible.foldlM_eq_ok_iff fun s _ _ _ => addSource_eq_ok, sightings, List.foldl_flatMap]

end Task

end

end SeismicHazard
