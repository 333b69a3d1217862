import SeismicHazard.Proofs.Number.Exact
import SeismicHazard.Proofs.Result.Gathers
import SeismicHazard.Proofs.Task.Collection
import SeismicHazard.Task.Computation

/-!
# What the sources of a task contribute

Every source contributes to the results of a task by its sightings.

* `WorkGroup.contributions`: what a source contributes.
* `WorkGroup.Feasible`: the region of a source is known, the models answer whatever is asked about its
  sightings, and all of them lie within the edges.
* `Task.contributions_eq`: to results about a site only the sightings there contribute.
-/

namespace SeismicHazard

/-- The grids of a setting have its epsilon bins. -/
def Setting.SharesEpsilon {α : Type} (st : Setting α) : Prop :=
  ∀ (site : Nat) (g : Grid α), st.grids[site]? = some g → g.epsilonBins = st.epsilonBins

/-- What the results of a target with its level at a site are about; without a level there are
none. -/
def Setting.key? {α : Type} (st : Setting α) (site : Nat) :
    Target α × Option α → Option (ResultKey α)
  | (_, none) => none
  | (target, some level) =>
    some ⟨site, target.realization, target.poe, target.imt, level, st.regions⟩

theorem Setting.site_of_key? {α : Type} {st : Setting α} {site : Nat} {tl : Target α × Option α}
    {k : ResultKey α} (h : st.key? site tl = some k) : k.site = site := by
  obtain ⟨target, _ | level⟩ := tl
  · cases h
  · cases h
    rfl

section

variable {α : Type} [Field α] [LinearOrder α] [FloorRing α] [Elementary α]

namespace WorkGroup

/-- What a sighting contributes to the results of a target. -/
def contribution (w : WorkGroup α) (st : Setting α) (v : Sighting α) (tl : Target α × Option α) :
    Contribution α :=
  ⟨v.seen, w.pnes st v tl⟩

/-- What a sighting contributes, if it is asked about the given targets with their levels. -/
def contributionsTo (w : WorkGroup α) (st : Setting α) (v : Sighting α)
    (targets : List (Target α × Option α)) : Contributions α := fun k =>
  ((targets.filter fun tl => st.key? v.site.id tl = some k).map (w.contribution st v) : List _)

/-- What a sighting contributes. -/
def contributionsOf (w : WorkGroup α) (st : Setting α) (v : Sighting α) : Contributions α :=
  w.contributionsTo st v (w.leveled v.levels)

/-- What a source contributes. -/
def contributions (w : WorkGroup α) (st : Setting α) (s : Source α) : Contributions α := fun k =>
  (w.sightings st s : Multiset (Sighting α)).bind fun v => w.contributionsOf st v k

/-- Whether the work on a source succeeds. -/
structure Feasible (w : WorkGroup α) (st : Setting α) (s : Source α) : Prop where
  region : (st.regionIndex? s.region).isSome
  answered : ∀ v ∈ w.sightings st s, w.Answered st v
  /-- Sightings that only targets without a level ask about may lie anywhere. -/
  placed : ∀ v ∈ w.sightings st s, ∀ tl ∈ w.leveled v.levels, tl.2.isSome →
    ∀ g, st.grids[v.site.id]? = some g → ∃ at_, g.place? st.regions.length v.seen = some at_

theorem contributionsTo_cons {w : WorkGroup α} {st : Setting α} {v : Sighting α}
    (tl : Target α × Option α) (targets : List (Target α × Option α)) (k : ResultKey α) :
    w.contributionsTo st v (tl :: targets) k =
      (if st.key? v.site.id tl = some k then {w.contribution st v tl} else 0) +
        w.contributionsTo st v targets k := by
  simp only [contributionsTo, List.filter_cons]
  by_cases hk : st.key? v.site.id tl = some k
  · simp [hk]
  · simp [hk]

theorem contributionsTo_of_ne {w : WorkGroup α} {st : Setting α} {v : Sighting α}
    {targets : List (Target α × Option α)} {k : ResultKey α} (h : v.site.id ≠ k.site) :
    w.contributionsTo st v targets k = 0 := by
  rw [contributionsTo, List.filter_eq_nil_iff.2]
  · rfl
  · intro tl _ hkey
    exact h (Setting.site_of_key? (of_decide_eq_true hkey)).symm

end WorkGroup

namespace Task

variable {t : Task α} {site : Nat} {g : Grid α}

/-- What the sources of a task contribute. -/
def contributions (t : Task α) : Contributions α := fun k =>
  (t.work.sources : Multiset (Source α)).bind fun s => t.work.contributions t.setting s k

/-- To results about a site only the sightings there contribute. -/
theorem contributions_eq (t : Task α) (k : ResultKey α) : t.contributions k =
    (t.sightingsAt k.site : Multiset (Sighting α)).bind fun v =>
      t.work.contributionsOf t.setting v k := by
  have hothers : ((t.sightings.filter fun v => !(v.site.id == k.site) :
      List (Sighting α)) : Multiset (Sighting α)).bind
        (fun v => t.work.contributionsOf t.setting v k) = 0 := by
    rw [← Multiset.bind_zero]
    refine Multiset.bind_congr fun v hv => WorkGroup.contributionsTo_of_ne ?_
    have := (List.mem_filter.1 (Multiset.mem_coe.1 hv)).2
    simpa using this
  have hall : t.contributions k = (t.sightings : Multiset (Sighting α)).bind
      fun v => t.work.contributionsOf t.setting v k := by
    rw [sightings, ← Multiset.coe_bind, Multiset.bind_assoc]
    rfl
  rw [hall, ← Multiset.coe_eq_coe.2 (List.filter_append_perm (·.site.id == k.site) t.sightings),
    ← Multiset.coe_add, Multiset.add_bind, hothers, add_zero]
  rfl

/-- A feasible sighting contributes within the edges of its site. -/
theorem fits_of_feasible {s : Source α} (hs : t.work.Feasible t.setting s)
    (hshared : t.setting.SharesEpsilon) {v : Sighting α} (hv : v ∈ t.work.sightings t.setting s)
    (hg : t.setting.grids[v.site.id]? = some g) {tl : Target α × Option α}
    (htl : tl ∈ t.work.leveled v.levels) (hlevel : tl.2.isSome) :
    (t.work.contribution t.setting v tl).Fits g t.setting.regions.length where
  length := (WorkGroup.length_pnes (hs.answered v hv) htl).trans (hshared _ _ hg).symm
  placed := hs.placed v hv tl htl hlevel g hg

end Task

end

end SeismicHazard
