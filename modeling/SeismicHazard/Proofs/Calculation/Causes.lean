import SeismicHazard.Proofs.Calculation.Event
import SeismicHazard.Proofs.Calculation.Run
import SeismicHazard.Proofs.Sum

/-!
# What causes a result

A result gathers one contribution of every rupture of the source models of its realization that counts
for its site. A rupture counts if its source is in reach of the site and its nearest node is within the
distance of the site.

* `Calculation.causes`: the ruptures that count for a site.
* `Calculation.Concerns`: the realization and the site that a result is about.
* `Calculation.Prepares.contributions_source`: what a source contributes, rupture by rupture.
* `Calculation.Prepares.contributions_eq_causes`: what all sources contribute.
* `Calculation.Prepares.contributions_ne_zero_iff`: which results anything is contributed to.
-/

namespace SeismicHazard.Calculation

/-- A rupture that counts for a site, as it is seen there, with the tectonic region types of its
source and of the group of its source. -/
structure Cause (α : Type) where
  group : String
  region : String
  rupture : Rupture α
  scenario : Scenario α

section

variable {α : Type} [Field α] [LinearOrder α] [FloorRing α] [Elementary α]

/-- The ruptures of a source of a group with the given region that count for a site. -/
def causesOf (group : String) (s : Source α) (site : Site α) : List (Cause α) :=
  if s.minDistance site.location ≤ site.maxDistance then
    s.ruptures.filterMap fun r =>
      (Scenario.ofRupture? r site).map fun scenario => ⟨group, s.region, r, scenario⟩
  else []

/-- The ruptures of the source models with an ordinal that count for a site. -/
def causes (inputs : Inputs α) (sourceModel : Nat) (site : Site α) : List (Cause α) :=
  inputs.models.flatMap fun m =>
    if m.ordinal = sourceModel then
      m.groups.flatMap fun g => g.sources.flatMap fun s => causesOf g.region s site
    else []

namespace Cause

/-- The probabilities of exceedance by epsilon bin, from the model that the realization of a result
assigns to the group of the rupture. -/
def poes? (e : Cause α) (config : Config α) (inputs : Inputs α) (r : Realization α)
    (k : ResultKey α) : Option (List α) := do
  let name ← r.groundMotion[e.group]?
  let model ← (inputs.library.get name).toOption
  (model.exceedance e.scenario ⟨k.imt, k.level, config.truncation,
    epsilonEdges config.truncation config.epsilonBins⟩).toOption

/-- The probabilities of no exceedance within the investigation time. -/
def pnes (e : Cause α) (config : Config α) (inputs : Inputs α) (r : Realization α)
    (k : ResultKey α) : List α :=
  ((e.poes? config inputs r k).getD []).map (e.rupture.nonExceedance · config.time)

/-- What the rupture contributes to a result. -/
def contribution (e : Cause α) (config : Config α) (inputs : Inputs α) (r : Realization α)
    (regions : List String) (k : ResultKey α) : Contribution α :=
  ⟨⟨e.rupture.magnitude, e.scenario.horizontal, e.scenario.node.lon, e.scenario.node.lat,
    (regions.idxOf? e.region).getD 0⟩, e.pnes config inputs r k⟩

/-- The rupture as a sighting of the work on its group. -/
def sighting (e : Cause α) (config : Config α) (inputs : Inputs α) (st : Setting α)
    (w : WorkGroup α) (near : Site α) : Sighting α where
  rupture := e.rupture
  site := near
  scenario := e.scenario
  levels := w.targets.map (Target.level? config.request.levels inputs.curves near.id)
  region := (st.regions.idxOf? e.region).getD 0

end Cause

theorem mem_causesOf {group : String} {s : Source α} {site : Site α} {e : Cause α} :
    e ∈ causesOf group s site ↔ s.minDistance site.location ≤ site.maxDistance ∧
      e.group = group ∧ e.region = s.region ∧ e.rupture ∈ s.ruptures ∧
        Scenario.ofRupture? e.rupture site = some e.scenario := by
  obtain ⟨_, _, _, _⟩ := e
  simp only [causesOf, List.mem_ite_nil_right, List.mem_filterMap, Option.map_eq_some_iff,
    Cause.mk.injEq]
  refine and_congr_right fun _ => ?_
  constructor
  · rintro ⟨rupture, hrupture, scenario, hscenario, rfl, rfl, rfl, rfl⟩
    exact ⟨rfl, rfl, hrupture, hscenario⟩
  · rintro ⟨rfl, rfl, hrupture, hscenario⟩
    exact ⟨_, hrupture, _, hscenario, rfl, rfl, rfl, rfl⟩

theorem mem_causes {inputs : Inputs α} {n : Nat} {site : Site α} {e : Cause α} :
    e ∈ causes inputs n site ↔ ∃ m ∈ inputs.models, m.ordinal = n ∧
      ∃ g ∈ m.groups, ∃ s ∈ g.sources, e ∈ causesOf g.region s site := by
  simp only [causes, List.mem_flatMap, List.mem_ite_nil_right]

variable {config : Config α} {inputs : Inputs α} {k : ResultKey α} {m : SourceModel α}
  {g : SourceGroup α} {w : WorkGroup α} {st : Setting α} {v : Sighting α} {r : Realization α}
  {name : String} {e : Cause α}

/-- Whether a requested result is about a realization and about a site with a grid. -/
structure Concerns (config : Config α) (inputs : Inputs α) (st : Setting α) (k : ResultKey α)
    (r : Realization α) (site : Site α) : Prop where
  realization : r ∈ inputs.tree.realizations
  requested : Requested config inputs st.regions r k
  near : capped config.maxDistance site ∈ st.gridSites
  id : k.site = site.id

/-! ### One source -/

variable {skipped : List Nat} {groups : List (WorkGroup α)} {site : Site α}

namespace Prepares

theorem mem_gridSites (h : Prepares config inputs st skipped groups) {near : Site α} :
    near ∈ st.gridSites ↔
      near ∈ (cappedSites config inputs).toList ∧ st.grids[near.id]?.isSome := by
  rw [Setting.gridSites, List.mem_filter, h.mem_sites, Std.TreeMap.contains_eq_isSome_getElem?,
    and_assoc, and_self]

/-- What the model of a target answers is what the model of the realization answers. -/
theorem exists_poes (h : Prepares config inputs st skipped groups)
    (hw : WorksOn config inputs st.sites m g w) (hgroup : e.group = g.region)
    (hname : r.groundMotion[g.region]? = some name) (hmem : targetOf k name ∈ w.targets)
    (hanswered : (w.pnes? st e.rupture e.scenario (targetOf k name, some k.level)).isSome) :
    ∃ poes, e.poes? config inputs r k = some poes ∧ poes.length = st.epsilonBins ∧
      w.pnes? st e.rupture e.scenario (targetOf k name, some k.level) =
        some (e.pnes config inputs r k) := by
  obtain ⟨htruncation, htime, -⟩ := h.settings_eq
  obtain ⟨model, hlibrary, hget⟩ := hw.models _ hmem
  obtain ⟨pnes, hpnes⟩ := Option.isSome_iff_exists.1 hanswered
  obtain ⟨poes, hanswer, -⟩ := Option.map_eq_some_iff.1 hpnes
  obtain ⟨_, hsame, hexceedance, hlength⟩ := WorkGroup.answer?_eq_some.1 hanswer
  rw [hget] at hsame
  cases hsame
  have hpoes : e.poes? config inputs r k = some poes := by
    rw [htruncation, h.epsilonEdges_eq] at hexceedance
    simp only [targetOf] at hlibrary hexceedance
    simp only [Cause.poes?, hgroup, hname, hlibrary, hexceedance, Except.toOption,
      Option.bind_eq_bind, Option.bind_some]
  refine ⟨poes, hpoes, hlength, ?_⟩
  rw [WorkGroup.pnes?, hanswer, Option.map_some, Cause.pnes, hpoes, htime, Option.getD_some]

/-- What is seen of a rupture contributes once to a requested result. -/
theorem contributionsOf_sighting (h : Prepares config inputs st skipped groups)
    (hw : WorksOn config inputs st.sites m g w) (hrepeats : NoRepeats config inputs)
    (hc : Concerns config inputs st k r site) (hmodel : r.sourceModel = m.ordinal)
    (hname : r.groundMotion[g.region]? = some name) (hgroup : e.group = g.region)
    (hanswered : w.Answered st (e.sighting config inputs st w (capped config.maxDistance site))) :
    (∃ poes, e.poes? config inputs r k = some poes ∧ poes.length = st.epsilonBins) ∧
    w.contributionsOf st (e.sighting config inputs st w (capped config.maxDistance site)) k =
      {e.contribution config inputs r st.regions k} := by
  have hrm : r ∈ inputs.tree.ofModel m.ordinal := mem_ofModel.2 ⟨hc.realization, hmodel⟩
  obtain ⟨hleveled, hcontributions⟩ := hw.contributionsOf_eq hrepeats
    (v := e.sighting config inputs st w (capped config.maxDistance site)) rfl hc.id hrm
    hc.requested hname
  obtain ⟨poes, hpoes, hlength, hpnes⟩ := h.exists_poes hw hgroup hname
    (hw.targetOf_mem hrm hc.requested hname) (hanswered _ hleveled)
  have hsame : w.pnes st (e.sighting config inputs st w (capped config.maxDistance site))
      (targetOf k name, some k.level) = e.pnes config inputs r k := by
    rw [WorkGroup.pnes]
    exact congrArg (·.getD []) hpnes
  refine ⟨⟨poes, hpoes, hlength⟩, ?_⟩
  rw [hcontributions, WorkGroup.contribution, hsame]
  rfl

/-- A site is seen from with the levels of the targets there. -/
theorem sighting?_eq (h : Prepares config inputs st skipped groups)
    (hw : WorksOn config inputs st.sites m g w) {near : Site α} (hnear : near ∈ st.gridSites)
    (region : Nat) (rupture : Rupture α) : w.sighting? region rupture near =
      (Scenario.ofRupture? rupture near).map fun scenario => ⟨rupture, near, scenario,
        w.targets.map (Target.level? config.request.levels inputs.curves near.id), region⟩ := by
  have hlevels := hw.levels h.nodup_ids_sites _ (List.mem_of_mem_filter hnear)
  unfold WorkGroup.sighting?
  rw [hlevels]
  cases Scenario.ofRupture? rupture near <;> rfl

/-- A rupture that counts for a site is seen there. -/
theorem sighting_mem (h : Prepares config inputs st skipped groups)
    (hw : WorksOn config inputs st.sites m g w) {near : Site α} (hnear : near ∈ st.gridSites)
    {s : Source α} {group : String} (he : e ∈ causesOf group s near) :
    e.sighting config inputs st w near ∈ w.sightings st s := by
  obtain ⟨hreach, -, hregion, hrupture, hscenario⟩ := mem_causesOf.1 he
  refine WorkGroup.mem_sightings.2 ⟨e.rupture, hrupture, near, ?_, ?_⟩
  · rw [st.sitesOf_eq]
    exact List.mem_filter.2 ⟨hnear, decide_eq_true hreach⟩
  · rw [h.sighting?_eq hw hnear, hscenario, Cause.sighting, hregion]
    rfl

/-- The levels that a sighting carries are those of its site. -/
theorem levels_of_mem_sightings (h : Prepares config inputs st skipped groups)
    (hw : WorksOn config inputs st.sites m g w) {s : Source α} (hv : v ∈ w.sightings st s) :
    v.levels = w.targets.map (Target.level? config.request.levels inputs.curves v.site.id) := by
  obtain ⟨rupture, -, site, hsite, hsighting⟩ := WorkGroup.mem_sightings.1 hv
  obtain ⟨-, rfl, -, hlevels, -⟩ := WorkGroup.eq_of_mem_sighting? hsighting
  have hmem : v.site ∈ st.sites.toList :=
    List.mem_of_mem_filter (List.mem_of_mem_filter hsite)
  rw [hw.levels h.nodup_ids_sites v.site hmem] at hlevels
  exact (Option.some.inj hlevels).symm

/-- The sites other than that of a result do not matter to it. -/
theorem bind_sitesOf (h : Prepares config inputs st skipped groups)
    (hw : WorksOn config inputs st.sites m g w) (hc : Concerns config inputs st k r site)
    (s : Source α) (rupture : Rupture α) :
    (((st.sitesOf s).filterMap (w.sighting? (st.regionOf s) rupture) : List (Sighting α)) :
        Multiset (Sighting α)).bind (fun v => w.contributionsOf st v k) =
      if s.minDistance site.location ≤ (capped config.maxDistance site).maxDistance then
        (Scenario.ofRupture? rupture (capped config.maxDistance site)).elim 0 fun scenario =>
          w.contributionsOf st (Cause.sighting ⟨g.region, s.region, rupture, scenario⟩ config inputs
            st w (capped config.maxDistance site)) k
      else 0 := by
  set near := capped config.maxDistance site with hnear
  have hids : (st.sites.toList.map fun x => x.id).Nodup := h.nodup_ids_sites
  have hnodup : st.gridSites.Nodup := (hids.of_map _).filter _
  rw [st.sitesOf_eq, List.filterMap_filter, bind_filterMap, bind_eq_of_mem hnodup hc.near]
  · rw [← hnear]
    have hlocation : near.location = site.location := rfl
    rw [hlocation]
    by_cases hreach : s.minDistance site.location ≤ near.maxDistance
    · rw [if_pos (decide_eq_true hreach), if_pos hreach, h.sighting?_eq hw hc.near]
      cases Scenario.ofRupture? rupture near <;> rfl
    · rw [if_neg (by simpa using hreach), if_neg hreach]
      rfl
  · intro other hother hne
    have hother_id : other.id ≠ k.site := by
      intro heq
      refine hne (List.inj_on_of_nodup_map hids (List.mem_of_mem_filter hother)
        (List.mem_of_mem_filter hc.near) ?_)
      rw [heq, hc.id]
      rfl
    split
    · cases hsighting : w.sighting? (st.regionOf s) rupture other with
      | none => rfl
      | some v =>
        refine WorkGroup.contributionsTo_of_ne ?_
        rw [(WorkGroup.eq_of_mem_sighting? hsighting).2.1]
        exact hother_id
    · rfl

/-- What a source contributes to a requested result: each of its ruptures that counts for the
site. -/
theorem contributions_source (h : Prepares config inputs st skipped groups)
    (hw : WorksOn config inputs st.sites m g w) (hrepeats : NoRepeats config inputs)
    (hc : Concerns config inputs st k r site) (hmodel : r.sourceModel = m.ordinal)
    (hname : r.groundMotion[g.region]? = some name) {s : Source α}
    (hanswered : ∀ v ∈ w.sightings st s, w.Answered st v) :
    w.contributions st s k = ((causesOf g.region s (capped config.maxDistance site)).map
      (·.contribution config inputs r st.regions k) : List _) := by
  set near := capped config.maxDistance site with hnear
  have heach : ∀ e ∈ causesOf g.region s near,
      w.contributionsOf st (e.sighting config inputs st w near) k =
        {e.contribution config inputs r st.regions k} := fun e he =>
    (h.contributionsOf_sighting hw hrepeats hc hmodel hname (mem_causesOf.1 he).2.1
      (hanswered _ (h.sighting_mem hw hc.near he))).2
  calc w.contributions st s k
      = (s.ruptures : Multiset (Rupture α)).bind fun rupture =>
          (((st.sitesOf s).filterMap (w.sighting? (st.regionOf s) rupture) : List (Sighting α)) :
            Multiset (Sighting α)).bind fun v => w.contributionsOf st v k := by
        rw [WorkGroup.contributions, WorkGroup.sightings, ← Multiset.coe_bind,
          Multiset.bind_assoc]
    _ = (causesOf g.region s near : Multiset (Cause α)).bind fun e =>
          w.contributionsOf st (e.sighting config inputs st w near) k := by
        rw [Multiset.bind_congr fun rupture _ => h.bind_sitesOf hw hc s rupture, causesOf, ← hnear]
        split
        · rw [if_pos ‹_›, bind_filterMap]
          refine Multiset.bind_congr fun rupture _ => ?_
          cases Scenario.ofRupture? rupture near <;> rfl
        · rw [if_neg ‹_›]
          exact Multiset.bind_zero _
    _ = ((causesOf g.region s near).map (·.contribution config inputs r st.regions k) : List _) := by
        rw [Multiset.bind_congr fun e he => heach e (Multiset.mem_coe.1 he),
          Multiset.bind_singleton, Multiset.map_coe]

/-- A group of another source model contributes nothing. -/
theorem contributions_of_ne (h : Prepares config inputs st skipped groups)
    (hw : WorksOn config inputs st.sites m g w) (hrepeats : NoRepeats config inputs)
    (hr : r ∈ inputs.tree.realizations) (hk : Requested config inputs st.regions r k)
    (hm : m.ordinal ≠ r.sourceModel) (s : Source α) : w.contributions st s k = 0 := by
  refine Multiset.eq_zero_of_forall_notMem fun c hc => ?_
  obtain ⟨v, hv, hc⟩ := Multiset.mem_bind.1 hc
  obtain ⟨-, r', hr', hk'⟩ := hw.requested_of_mem (h.levels_of_mem_sightings hw hv) hc
  obtain ⟨hr', hmodel⟩ := mem_ofModel.1 hr'
  have hsame : r' = r := List.inj_on_of_nodup_map hrepeats.ordinals hr' hr
    (hk'.realization.symm.trans hk.realization)
  exact hm (hsame ▸ hmodel).symm

end Prepares

/-! ### All sources -/

section

variable [IsStrictOrderedRing α]

/-- What holds of the parts of a source in reach holds of the source: its region is known, and what
is seen of it is answered and has bins. -/
theorem AllFeasible.of_source (h : AllFeasible st groups) (hw : w ∈ groups) {s : Source α}
    (hs : s ∈ w.sources) (hv : v ∈ w.sightings st s) :
    (st.regionIndex? s.region).isSome ∧ w.Answered st v ∧
      ∀ tl ∈ w.leveled v.levels, tl.2.isSome → ∀ grid, st.grids[v.site.id]? = some grid →
        ∃ at_, grid.place? st.regions.length v.seen = some at_ := by
  rw [← WorkGroup.flatMap_sightings_split] at hv
  obtain ⟨part, hpart, hv⟩ := List.mem_flatMap.1 hv
  have haffects : part.affects st.sites := by
    by_contra hnot
    rw [WorkGroup.sightings_of_not_affects hnot] at hv
    cases hv
  have hparts : part ∈ w.parts st.sites :=
    List.mem_filter.2 ⟨List.mem_flatMap.2 ⟨s, hs, hpart⟩, haffects⟩
  have hfeasible := h w hw part hparts
  rw [← (Source.of_mem_split hpart).1]
  exact ⟨hfeasible.region, hfeasible.answered v hv, hfeasible.placed v hv⟩

namespace Prepares

/-- What a group contributes to a requested result. -/
theorem contributions_group (h : Prepares config inputs st skipped groups)
    (hfeasible : AllFeasible st groups) (hrepeats : NoRepeats config inputs)
    (hc : Concerns config inputs st k r site) (hm : m ∈ inputs.models) (hg : g ∈ m.groups) :
    (workGroup? config inputs st.sites m g).elim 0 (fun w =>
        (w.sources : Multiset (Source α)).bind fun s => w.contributions st s k) =
      (if m.ordinal = r.sourceModel then
        (g.sources.flatMap fun s =>
          causesOf g.region s (capped config.maxDistance site)).map
            (·.contribution config inputs r st.regions k)
      else [] : List (Contribution α)) := by
  obtain ⟨x, hx⟩ := h.exists_workGroup hm hg
  split
  · next hmodel =>
    have hrm : r ∈ inputs.tree.ofModel m.ordinal := mem_ofModel.2 ⟨hc.realization, hmodel.symm⟩
    obtain ⟨name, hname⟩ := exists_model_of_workGroup hx hrm
    cases x with
    | none =>
      rw [ofModel_eq_nil hx] at hrm
      cases hrm
    | some w =>
      have hwork := workGroup?_eq_some.2 hx
      have hw := worksOn_of_workGroup? hwork
      rw [hwork, Option.elim_some, hw.sources, List.map_flatMap, ← Multiset.coe_bind]
      refine Multiset.bind_congr fun s hs => ?_
      refine h.contributions_source hw hrepeats hc hmodel.symm hname fun v hv => ?_
      exact (hfeasible.of_source (h.mem_groups.2 ⟨m, hm, g, hg, hwork⟩) (hw.sources ▸ hs) hv).2.1
  · next hmodel =>
    cases hwork : workGroup? config inputs st.sites m g with
    | none => rfl
    | some w =>
      have hzero := h.contributions_of_ne (worksOn_of_workGroup? hwork) hrepeats hc.realization
        hc.requested hmodel
      rw [Option.elim_some, Multiset.bind_congr fun s _ => hzero s]
      exact Multiset.bind_zero _

/-- The contributions to a requested result: one of every rupture of the source models of its
realization that counts for its site. -/
theorem contributions_eq_causes (h : Prepares config inputs st skipped groups)
    (hfeasible : AllFeasible st groups) (hrepeats : NoRepeats config inputs)
    (hc : Concerns config inputs st k r site) :
    contributions st groups k =
      ((causes inputs r.sourceModel (capped config.maxDistance site)).map
        (·.contribution config inputs r st.regions k) : List _) := by
  have hparts : contributions st groups k = (groups : Multiset (WorkGroup α)).bind fun w =>
      (w.sources : Multiset (Source α)).bind fun s => w.contributions st s k :=
    Multiset.bind_congr fun w _ => w.contributions_parts k
  rw [hparts, h.groups_eq, causes, List.map_flatMap, ← Multiset.coe_bind, ← Multiset.coe_bind,
    Multiset.bind_assoc]
  refine Multiset.bind_congr fun m hm => ?_
  have hgroups := fun (g : SourceGroup α) hg =>
    h.contributions_group hfeasible hrepeats hc hm (g := g) hg
  rw [bind_filterMap, Multiset.bind_congr hgroups]
  split
  · rw [List.map_flatMap, ← Multiset.coe_bind]
  · exact Multiset.bind_zero _

/-- Something is contributed exactly to what is requested about a realization, at a site that a
rupture of its source models counts for. -/
theorem contributions_ne_zero_iff (h : Prepares config inputs st skipped groups)
    (hfeasible : AllFeasible st groups) (hrepeats : NoRepeats config inputs) :
    contributions st groups k ≠ 0 ↔ ∃ r, ∃ site ∈ inputs.sites.toList,
      Concerns config inputs st k r site ∧
        causes inputs r.sourceModel (capped config.maxDistance site) ≠ [] := by
  constructor
  · intro hk
    obtain ⟨c, hc⟩ := Multiset.exists_mem_of_ne_zero hk
    obtain ⟨w, hwork, hc⟩ := Multiset.mem_bind.1 hc
    obtain ⟨m, hm, g, hg, hwork⟩ := h.mem_groups.1 (Multiset.mem_coe.1 hwork)
    have hw := worksOn_of_workGroup? hwork
    rw [WorkGroup.contributions_parts] at hc
    obtain ⟨s, hs, hc⟩ := Multiset.mem_bind.1 hc
    obtain ⟨v, hv, hc⟩ := Multiset.mem_bind.1 hc
    obtain ⟨hid, r, hr, hrequested⟩ := hw.requested_of_mem (h.levels_of_mem_sightings hw hv) hc
    obtain ⟨hr, hmodel⟩ := mem_ofModel.1 hr
    obtain ⟨rupture, hrupture, near, hnear, hsighting⟩ := WorkGroup.mem_sightings.1 hv
    obtain ⟨-, rfl, hscenario, -, -⟩ := WorkGroup.eq_of_mem_sighting? hsighting
    rw [st.sitesOf_eq] at hnear
    obtain ⟨hgrid, hreach⟩ := List.mem_filter.1 hnear
    obtain ⟨site, hsite, hcapped⟩ := List.mem_map.1 (h.mem_gridSites.1 hgrid).1
    refine ⟨r, site, hsite, ⟨hr, hrequested, hcapped ▸ hgrid, ?_⟩, ?_⟩
    · rw [hid, ← hcapped]
      rfl
    · have hcause : (⟨g.region, s.region, rupture, v.scenario⟩ : Cause α) ∈
          causesOf g.region s v.site :=
        mem_causesOf.2 ⟨of_decide_eq_true hreach, rfl, rfl, hrupture, hscenario⟩
      rw [hcapped]
      exact List.ne_nil_of_mem
        (mem_causes.2 ⟨m, hm, hmodel.symm, g, hg, s, hw.sources ▸ hs, hcause⟩)
  · rintro ⟨r, site, -, hc, hcauses⟩ hzero
    rw [h.contributions_eq_causes hfeasible hrepeats hc, Multiset.coe_eq_zero,
      List.map_eq_nil_iff] at hzero
    exact hcauses hzero

/-- The region of a rupture that counts for the site of a requested result is known, and its model
answers. -/
theorem of_cause (h : Prepares config inputs st skipped groups)
    (hfeasible : AllFeasible st groups) (hrepeats : NoRepeats config inputs)
    (hc : Concerns config inputs st k r site)
    (he : e ∈ causes inputs r.sourceModel (capped config.maxDistance site)) :
    (st.regions.idxOf? e.region).isSome ∧ ∃ poes,
      e.poes? config inputs r k = some poes ∧ poes.length = st.epsilonBins := by
  obtain ⟨m, hm, hordinal, g, hg, s, hs, he⟩ := mem_causes.1 he
  obtain ⟨-, hgroup, hregion, -⟩ := mem_causesOf.1 he
  have hrm : r ∈ inputs.tree.ofModel m.ordinal := mem_ofModel.2 ⟨hc.realization, hordinal.symm⟩
  obtain ⟨x, hx⟩ := h.exists_workGroup hm hg
  obtain ⟨name, hname⟩ := exists_model_of_workGroup hx hrm
  cases x with
  | none =>
    rw [ofModel_eq_nil hx] at hrm
    cases hrm
  | some w =>
    have hwork := workGroup?_eq_some.2 hx
    have hw := worksOn_of_workGroup? hwork
    have hseen := h.sighting_mem hw hc.near he
    obtain ⟨hindex, hanswered, -⟩ := hfeasible.of_source
      (h.mem_groups.2 ⟨m, hm, g, hg, hwork⟩) (hw.sources ▸ hs) hseen
    rw [hregion]
    exact ⟨hindex,
      (h.contributionsOf_sighting hw hrepeats hc hordinal.symm hname hgroup hanswered).1⟩

end Prepares

end

end

end SeismicHazard.Calculation
