import SeismicHazard.Proofs.Calculation.EventContributions
import SeismicHazard.Proofs.Grid.Extent

/-!
# A formula for the results of a calculation

Every cell of every view of a result is one minus a product over the events of a source model,
written down without tasks, splitting, caches or merging.

* `Calculation.Event.bins?`: the bins that hold an event.
* `Calculation.Event.factors`: what an event multiplies into which cells.
* `Calculation.formula`: the probability in a cell of a view.
* `Calculation.results_eq_formula`: the results of a calculation are given by the formula.
-/

namespace SeismicHazard

/-- Whether the edges that events are looked up between ascend. -/
structure Grid.Ascends {α : Type} [LinearOrder α] (g : Grid α) : Prop where
  magnitude : g.magnitude.Pairwise (· < ·)
  distance : g.distance.Pairwise (· < ·)
  longitude : g.longitude.Pairwise (· < ·)
  latitude : g.latitude.Pairwise (· < ·)

namespace Calculation

section

variable {α : Type} [Field α] [LinearOrder α] [FloorRing α] [Elementary α]

namespace Event

/-- The bins that hold an event: its magnitude, its distance, its longitude (or the same longitude a
full turn further east), its latitude and its region. -/
def bins? (e : Event α) (g : Grid α) (regions : List String) (place : Point α) :
    Option (Nat × Nat × Nat × Nat × Nat) := do
  let m ← binOf? g.magnitude e.magnitude
  let d ← binOf? g.distance (e.node.distance place)
  let lo ← (binOf? g.longitude e.node.lon).or (binOf? g.longitude (e.node.lon + 360))
  let la ← binOf? g.latitude e.node.lat
  let t ← regions.idxOf? e.region
  return (m, d, lo, la, t)

/-- What an event multiplies into the joint distribution of a result: for each epsilon bin the
probability of no exceedance, in the cell of its bins. -/
def factors (e : Event α) (config : Config α) (inputs : Inputs α) (r : Realization α)
    (site : Site α) (g : Grid α) (regions : List String) (k : ResultKey α) : List (List Nat × α) :=
  match e.bins? g regions site.location with
  | some at_ => (e.pnes config inputs r site.location k).mapIdx fun i pne => (cellOf at_ i, pne)
  | none => []

end Event

/-- The probability in a cell of a view: that of an exceedance by some event within the distance of
the site, in some epsilon bin that belongs to the cell. -/
def formula (config : Config α) (inputs : Inputs α) (r : Realization α) (site : Site α)
    (g : Grid α) (regions : List String) (k : ResultKey α) (kind : Marginal) (cell : List Nat) : α :=
  let near := (events inputs r.sourceModel).filter (·.Within site config.maxDistance)
  let factors := near.flatMap (·.factors config inputs r site g regions k)
  1 - ((factors.filter fun f => kind.project f.1 = cell).map (·.2)).prod

variable [IsStrictOrderedRing α] {config : Config α} {inputs : Inputs α} {st : Setting α}
  {skipped : List Nat} {groups : List (WorkGroup α)} {r : Realization α} {site : Site α}
  {g : Grid α} {k : ResultKey α}

/-- The edges of every grid ascend, whether or not their indices fit. -/
theorem Prepares.ascends (h : Prepares config inputs st skipped groups)
    (hvalid : config.validate = .ok ()) {id : Nat} (hg : st.grids[id]? = some g) : g.Ascends := by
  obtain ⟨magnitudes, e, -, site, -, -, he, rfl⟩ := h.grids_eq_some.1 hg
  obtain ⟨hdistance, hlongitude, hlatitude⟩ := Extent.pairwise_edges?
    (Config.distanceWidth_pos hvalid) (Config.coordinateWidth_pos hvalid) he
  exact ⟨pairwise_snappedEdges (Config.magWidth_pos hvalid) _ _, hdistance, hlongitude, hlatitude⟩

/-- The bins that hold an event are those that are searched for. -/
theorem Event.place?_eq (e : Event α) {regions : List String} (place : Point α) (hg : g.Ascends)
    (hregion : (regions.idxOf? e.region).isSome) :
    g.place? regions.length ⟨e.magnitude, e.node.distance place, e.node.lon, e.node.lat,
      (regions.idxOf? e.region).getD 0⟩ = e.bins? g regions place := by
  obtain ⟨t, ht⟩ := Option.isSome_iff_exists.1 hregion
  have hlt : t < regions.length := (List.idxOf?_eq_some_iff.1 ht).1
  simp only [Grid.place?, Event.bins?, locate?_eq_binOf? hg.magnitude,
    locate?_eq_binOf? hg.distance, locate?_eq_binOf? hg.longitude, locate?_eq_binOf? hg.latitude,
    binOf?_toFrame hg.longitude, ht, Option.getD_some, if_pos hlt]
  rfl

theorem Event.factors_contribution (e : Event α) {regions : List String} (hg : g.Ascends)
    (hregion : (regions.idxOf? e.region).isSome) :
    (e.contribution config inputs r site.location regions k).factors g regions.length =
      (e.factors config inputs r site g regions k : List (List Nat × α)) := by
  have hplace : g.place? regions.length
      (e.contribution config inputs r site.location regions k).rupture =
        e.bins? g regions site.location := e.place?_eq site.location hg hregion
  rw [Contribution.factors, hplace, Event.factors]
  cases e.bins? g regions site.location with
  | none => rfl
  | some at_ => rfl

namespace Prepares

variable {results : Results α} {m : Marginals α}

/-- There is a result for what is requested where an event is within the distance. -/
theorem isSome_iff_requested (h : Prepares config inputs st skipped groups)
    (hfeasible : AllFeasible st groups) (hgathers : results.Gathers st (contributions st groups))
    (hnodal : NodalSources inputs) (hrepeats : NoRepeats config inputs) :
    results[k]?.isSome ↔ ∃ r ∈ inputs.tree.realizations, Requested config inputs st.regions r k ∧
      ∃ site ∈ inputs.sites.toList, site.id = k.site ∧ st.grids[site.id]?.isSome ∧
        ∃ e ∈ events inputs r.sourceModel, e.Within site config.maxDistance := by
  rw [hgathers.isSome_iff k, h.contributions_ne_zero_iff_events hfeasible hnodal hrepeats]
  constructor
  · rintro ⟨r, site, hsite, hc, he⟩
    exact ⟨r, hc.realization, hc.requested, site, hsite, hc.id.symm,
      (h.mem_gridSites.1 hc.near).2, he⟩
  · rintro ⟨r, hr, hrequested, site, hsite, hid, hgrid, he⟩
    have hnear := h.mem_gridSites.2 ⟨List.mem_map_of_mem hsite, hgrid⟩
    exact ⟨r, site, hsite, ⟨hr, hrequested, hnear, hid.symm⟩, he⟩

/-- The factors of a result are those of the events. -/
theorem factorsOf_eq (h : Prepares config inputs st skipped groups)
    (hvalid : config.validate = .ok ()) (hfeasible : AllFeasible st groups)
    (hnodal : NodalSources inputs) (hrepeats : NoRepeats config inputs)
    (hc : Concerns config inputs st k r site) (hg : st.grids[site.id]? = some g) :
    factorsOf g st.regions.length (contributions st groups k) =
      (((events inputs r.sourceModel).filter (·.Within site config.maxDistance)).flatMap
        (·.factors config inputs r site g st.regions k) : List (List Nat × α)) := by
  rw [h.contributions_eq hfeasible hnodal hrepeats hc, factorsOf, ← Multiset.map_coe,
    Multiset.bind_map, ← Multiset.coe_bind]
  refine Multiset.bind_congr fun e he => ?_
  obtain ⟨he, hwithin⟩ := List.mem_filter.1 (Multiset.mem_coe.1 he)
  exact e.factors_contribution (h.ascends hvalid hg)
    (h.of_event hfeasible hnodal hrepeats hc he (of_decide_eq_true hwithin)).1

/-- The views of a result hold the probabilities of the formula. -/
theorem views_eq_formula (h : Prepares config inputs st skipped groups)
    (hvalid : config.validate = .ok ()) (hfeasible : AllFeasible st groups)
    (hgathers : results.Gathers st (contributions st groups)) (hnodal : NodalSources inputs)
    (hrepeats : NoRepeats config inputs) (hc : Concerns config inputs st k r site)
    (hg : st.grids[site.id]? = some g) (hm : results[k]? = some m) :
    (∀ e ∈ events inputs r.sourceModel, e.Within site config.maxDistance →
      (e.bins? g st.regions site.location).isSome ∧ ∃ poes,
        e.poes? config inputs r site.location k = some poes ∧ poes.length = g.epsilonBins) ∧
    m.views.map (·.1) = config.marginals ∧
    ∀ kind t, (kind, t) ∈ m.views → t.shape = kind.project (g.shape st.regions.length) ∧
      ∀ cell ∈ Tensor.cells t.shape,
        t.get? cell = some (formula config inputs r site g st.regions k kind cell) := by
  obtain ⟨-, g', hg', hfits, rfl⟩ := hgathers.exists_gather hm
  rw [hc.id, hg] at hg'
  cases hg'
  have hfactors := h.factorsOf_eq hvalid hfeasible hnodal hrepeats hc hg
  refine ⟨?_, ?_, ?_⟩
  · intro e he hwithin
    obtain ⟨hregion, poes, hpoes, hlength⟩ :=
      h.of_event hfeasible hnodal hrepeats hc he hwithin
    have hmem : e.contribution config inputs r site.location st.regions k ∈
        contributions st groups k := by
      rw [h.contributions_eq hfeasible hnodal hrepeats hc]
      exact Multiset.mem_coe.2 (List.mem_map.2
        ⟨e, List.mem_filter.2 ⟨he, decide_eq_true hwithin⟩, rfl⟩)
    obtain ⟨at_, hat⟩ := (hfits _ hmem).placed
    refine ⟨?_, poes, hpoes, hlength.trans (h.sharesEpsilon _ _ hg).symm⟩
    rw [← e.place?_eq site.location (h.ascends hvalid hg) hregion]
    exact Option.isSome_iff_exists.2 ⟨at_, hat⟩
  · obtain ⟨-, -, hmarginals, -⟩ := h.settings_eq
    rw [Setting.gather, Marginals.map_fst_views_ofFactors, hmarginals]
  · intro kind t hview
    obtain ⟨-, rfl⟩ := Marginals.mem_views_ofFactors.1 hview
    refine ⟨rfl, fun cell hcell => ?_⟩
    rw [kind.get?_ofFactors _ hcell, hfactors]
    rfl

end Prepares

variable [BitPattern α] {c : Calculation α} {out : Outcome α}

/-- The results of a calculation are those of the formula. There is a result exactly for what is
requested about a realization at a site with bins, if an event of its source models is within the
distance of the site; all of these events have bins and an answer of the ground-motion model that
the realization assigns to them; and every cell of every view that is asked for holds the probability
of the formula. -/
theorem results_eq_formula {x : Executor} {workers : Nat}
    (hc : withExecutor config x workers = .ok c) (hrun : c.RunsTo inputs (.ok out))
    (hnodal : NodalSources inputs) (hrepeats : NoRepeats config inputs) (k : ResultKey α) :
    (out.results[k]?.isSome ↔ ∃ r ∈ inputs.tree.realizations,
      Requested config inputs out.regions r k ∧ ∃ site ∈ inputs.sites.toList, site.id = k.site ∧
        out.grids[site.id]?.isSome ∧
        ∃ e ∈ events inputs r.sourceModel, e.Within site config.maxDistance) ∧
    ∀ m, out.results[k]? = some m → ∀ r ∈ inputs.tree.realizations, r.ordinal = k.realization →
      ∀ site ∈ inputs.sites.toList, site.id = k.site → ∀ g, out.grids[site.id]? = some g →
        (∀ e ∈ events inputs r.sourceModel, e.Within site config.maxDistance →
          (e.bins? g out.regions site.location).isSome ∧ ∃ poes,
            e.poes? config inputs r site.location k = some poes ∧ poes.length = g.epsilonBins) ∧
        m.views.map (·.1) = config.marginals ∧
        ∀ kind t, (kind, t) ∈ m.views → t.shape = kind.project (g.shape out.regions.length) ∧
          ∀ cell ∈ Tensor.cells t.shape,
            t.get? cell = some (formula config inputs r site g out.regions k kind cell) := by
  obtain ⟨hvalid, -, rfl⟩ := withExecutor_eq_ok.1 hc
  obtain ⟨st, skipped, groups, hprepares, hfeasible, hgathers, hgrids, hregions, -⟩ := hrun.gathers
  rw [hgrids, hregions]
  have hkeys := hprepares.isSome_iff_requested (k := k) hfeasible hgathers hnodal hrepeats
  refine ⟨hkeys, fun m hm r hr hordinal site hsite hid g hg => ?_⟩
  -- the key belongs to one realization and one site
  obtain ⟨r', hr', hk, -⟩ := hkeys.1 (by rw [hm]; rfl)
  have hsame : r' = r := List.inj_on_of_nodup_map hrepeats.ordinals hr' hr
    (hk.realization.symm.trans hordinal.symm)
  subst hsame
  have hnear := hprepares.mem_gridSites.2
    ⟨List.mem_map_of_mem hsite, Option.isSome_iff_exists.2 ⟨g, hg⟩⟩
  exact hprepares.views_eq_formula hvalid hfeasible hgathers hnodal hrepeats
    ⟨hr, hk, hnear, hid.symm⟩ hg hm

open Sample in
theorem results_eq_formula_sample : ∃ out m r site g,
    Sample.calculation.RunsTo Sample.inputs (.ok out) ∧ out.results[Sample.key]? = some m ∧
    out.grids[site.id]? = some g ∧ m.views.map (·.1) = Sample.config.marginals ∧
    ∀ kind t, (kind, t) ∈ m.views → t.shape = kind.project (g.shape out.regions.length) ∧
      ∀ cell ∈ Tensor.cells t.shape, t.get? cell =
        some (formula Sample.config Sample.inputs r site g out.regions Sample.key kind cell) := by
  have hnodal : NodalSources Sample.inputs := by
    simp [NodalSources, Sample.inputs, Source.IsNodal]
  have hrepeats : NoRepeats Sample.config Sample.inputs :=
    ⟨List.nodup_nil, List.nodup_nil, List.nodup_singleton 0⟩
  obtain ⟨out, m, hout, hm⟩ := Sample.exists_result
  have hrun : Sample.calculation.RunsTo Sample.inputs (.ok out) := hout ▸ runsTo_run _ _
  obtain ⟨hkeys, hcells⟩ :=
    results_eq_formula Sample.withExecutor_config hrun hnodal hrepeats Sample.key
  obtain ⟨r, hr, hk, site, hsite, hid, hgrid, -⟩ := hkeys.1 (by rw [hm]; rfl)
  obtain ⟨g, hg⟩ := Option.isSome_iff_exists.1 hgrid
  have hviews := hcells m hm r hr hk.realization.symm site hsite hid g hg
  exact ⟨out, m, r, site, g, hrun, hm, hg, hviews.2⟩

end

end Calculation

end SeismicHazard
