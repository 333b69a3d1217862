import Mathlib.Probability.CDF
import Mathlib.Probability.Distributions.Gaussian.Real
import SeismicHazard.Proofs.Calculation.ExceedanceRate
import SeismicHazard.Proofs.Calculation.Geometry

/-!
# Overall probabilities do not depend on the bins

Every view of a result gives one overall probability. With lognormal models it follows from the rate at
which the level of the result is exceeded, however the axes are cut into bins and whatever views are
asked for.

* `Config.rebin`: a configuration with other bins and views.
* `Calculation.concerns_rebin_iff`: what the results are about does not depend on the bins.
* `Calculation.aggregates_independent_of_bins`: nor do their overall probabilities.
-/

namespace SeismicHazard

/-- The configuration with other bins and views. -/
def Config.rebin {α : Type} (config : Config α) (binning : BinningConfig α) (views : List String) :
    Config α :=
  { config with binning := binning, execution := { config.execution with views := views } }

namespace Calculation

theorem NoRepeats.rebin {α : Type} {config : Config α} {inputs : Inputs α}
    {binning : BinningConfig α} {views : List String} (h : NoRepeats config inputs) :
    NoRepeats (config.rebin binning views) inputs :=
  ⟨h.poes, h.imts, h.ordinals⟩

section

variable {α : Type} [Field α] [LinearOrder α] [FloorRing α] [Elementary α] {config : Config α}
  {inputs : Inputs α} {models : String → Option (LognormalModel α)} {k : ResultKey α}
  {r : Realization α} {site : Site α} {st st' : Setting α} {skipped skipped' : List Nat}
  {groups groups' : List (WorkGroup α)} {binning : BinningConfig α} {views : List String}

/-- What a result is about does not depend on the bins. -/
theorem Concerns.rebin (hc : Concerns config inputs st k r site)
    (h : Prepares config inputs st skipped groups)
    (h' : Prepares (config.rebin binning views) inputs st' skipped' groups') :
    Concerns (config.rebin binning views) inputs st' k r site := by
  obtain ⟨-, -, -, hregions⟩ := h.settings_eq
  obtain ⟨-, -, -, hregions'⟩ := h'.settings_eq
  obtain ⟨hrealization, hpoe, himt, hlevel, hkey⟩ := hc.requested
  obtain ⟨hcapped, hgrid⟩ := h.mem_gridSites.1 hc.near
  refine ⟨hc.realization, ⟨hrealization, hpoe, himt, hlevel, ?_⟩, ?_, hc.id⟩
  · rw [hkey, hregions, hregions']
  · exact h'.mem_gridSites.2 ⟨hcapped, h'.isSome_grids_iff.2 (h.isSome_grids_iff.1 hgrid)⟩

theorem concerns_rebin_iff (h : Prepares config inputs st skipped groups)
    (h' : Prepares (config.rebin binning views) inputs st' skipped' groups') :
    Concerns (config.rebin binning views) inputs st' k r site ↔
      Concerns config inputs st k r site := by
  refine ⟨fun hc => ?_, fun hc => hc.rebin h h'⟩
  -- the bins and views of the configuration itself are put back
  have hback : Concerns ((config.rebin binning views).rebin config.binning config.execution.views)
      inputs st k r site := hc.rebin h' h
  exact hback

variable [IsStrictOrderedRing α] [BitPattern α]

/-- The overall probabilities of a calculation with lognormal models do not depend on the bins. If two
configurations differ only in the widths of the bins, the number of epsilon bins and the views, and a
calculation with each of them succeeds, then both have results for the same keys, and each of the views
that are asked for gives the probability that the level is exceeded within the investigation time, if
every rupture that counts for the site exceeds it independently with its truncated probability. -/
theorem aggregates_independent_of_bins {x x' : Executor} {workers workers' : Nat}
    {c c' : Calculation α} {out out' : Outcome α} (hexp : ExponentialLaws α)
    (hmodels : inputs.library.IsLognormal models) (hrepeats : NoRepeats config inputs)
    (hc : withExecutor config x workers = .ok c)
    (hc' : withExecutor (config.rebin binning views) x' workers' = .ok c')
    (hrun : c.RunsTo inputs (.ok out)) (hrun' : c'.RunsTo inputs (.ok out')) (k : ResultKey α) :
    (out.results[k]?.isSome ↔ out'.results[k]?.isSome) ∧
    ∀ m m', out.results[k]? = some m → out'.results[k]? = some m' →
      ∃ r ∈ inputs.tree.realizations, r.ordinal = k.realization ∧
      ∃ site ∈ inputs.sites.toList, site.id = k.site ∧
        (∀ e ∈ causes inputs r.sourceModel (capped config.maxDistance site),
          (e.exceedance? models config.truncation r k).isSome) ∧
        m.aggregates = List.replicate config.marginals.length
          (1 - Elementary.exp (-config.time * exceedanceRate config inputs models r site k)) ∧
        m'.aggregates = List.replicate (config.rebin binning views).marginals.length
          (1 - Elementary.exp (-config.time * exceedanceRate config inputs models r site k)) := by
  obtain ⟨hvalid, -, rfl⟩ := withExecutor_eq_ok.1 hc
  obtain ⟨hvalid', -, rfl⟩ := withExecutor_eq_ok.1 hc'
  obtain ⟨st, skipped, groups, hp, hfeasible, hgathers, -⟩ := hrun.gathers
  obtain ⟨st', skipped', groups', hp', hfeasible', hgathers', -⟩ := hrun'.gathers
  have hrepeats' : NoRepeats (config.rebin binning views) inputs := hrepeats.rebin
  have hkeys := (hgathers.isSome_iff k).trans (hp.contributions_ne_zero_iff hfeasible hrepeats)
  have hkeys' := (hgathers'.isSome_iff k).trans (hp'.contributions_ne_zero_iff hfeasible' hrepeats')
  constructor
  · rw [hkeys, hkeys']
    simp only [concerns_rebin_iff hp hp']
    rfl
  · intro m m' hm hm'
    obtain ⟨r, site, hsite, hconcerns, -⟩ := hkeys.1 (by rw [hm]; rfl)
    obtain ⟨hsome, haggregates⟩ := hp.aggregates_eq hvalid hfeasible hgathers hrepeats hexp hmodels
      hconcerns hm
    obtain ⟨-, haggregates'⟩ := hp'.aggregates_eq hvalid' hfeasible' hgathers' hrepeats' hexp hmodels
      (hconcerns.rebin hp hp') hm'
    exact ⟨r, hconcerns.realization, hconcerns.requested.realization.symm, site, hsite,
      hconcerns.id.symm, hsome, haggregates, haggregates'⟩

end

/-! ### Real numbers -/

namespace RealSample

/-- The real functions; distances are in degrees, along meridians and parallels. -/
noncomputable scoped instance : Elementary ℝ where
  exp := Real.exp
  ln := Real.log
  powTen x := 10 ^ x
  sqrt := Real.sqrt
  normalCdf x := ProbabilityTheory.cdf (ProbabilityTheory.gaussianReal 0 1) x
  distance a b c d := |a - c| + |b - d|

/-- Fingerprints that cannot tell numbers apart. -/
scoped instance : BitPattern ℝ where
  toBits _ := 0
  ofBits _ := 0

/-- One level is asked for, everything else is left at its default. -/
noncomputable def config : Config ℝ :=
  { Config.empty with
    request := ⟨none, none, none, [], Std.TreeMap.ofList [("PGA", (1 / 10 : ℝ))], []⟩ }

/-- Wider bins, and more of them for epsilon. -/
noncomputable def coarse : BinningConfig ℝ := ⟨some 1, some 20, some 1, some 7⟩

noncomputable def hypocenter : Point ℝ := ⟨0, 0, 10⟩

noncomputable def rupture : Rupture ℝ := ⟨6, 1 / 100, [hypocenter]⟩

noncomputable def source : Source ℝ := .point ⟨"point", "A", hypocenter, .binned 6 1 [1 / 100]⟩

noncomputable def site : Site ℝ := ⟨0, .surface 0 0, 100⟩

noncomputable def model : LognormalModel ℝ :=
  ⟨"G", Std.TreeMap.ofList [("PGA", (⟨-1, 1 / 2, 1, 10, 3 / 5⟩ : Attenuation ℝ))]⟩

noncomputable def models (name : String) : Option (LognormalModel ℝ) :=
  if model.name = name then some model else none

/-- A point below a site. -/
noncomputable def inputs : Inputs ℝ where
  sites := ⟨[site]⟩
  models := [⟨0, "model", [⟨0, "A", [source]⟩]⟩]
  tree := ⟨[⟨0, 0, 1, Std.TreeMap.ofList [("A", "G")]⟩]⟩
  library := .ofList [model.toModel]
  curves := ⟨∅⟩

noncomputable def key : ResultKey ℝ := ⟨0, 0, none, "PGA", 1 / 10, ["A"]⟩

variable {binning : BinningConfig ℝ} {views : List String}

theorem exponentialLaws : ExponentialLaws ℝ := ⟨Real.exp_add, Real.exp_zero⟩

theorem noRepeats : NoRepeats config inputs :=
  ⟨List.nodup_nil, List.nodup_nil, List.nodup_singleton 0⟩

theorem isLognormal : inputs.library.IsLognormal models :=
  ModelLibrary.isLognormal_singleton model

theorem coefficients {name : String} {m : LognormalModel ℝ} (h : models name = some m)
    {imt : String} (himt : imt ∈ config.measures) : (m.coefficients[imt]?).isSome := by
  obtain ⟨-, h⟩ := Option.ite_none_right_eq_some.1 h
  cases h
  obtain rfl := List.mem_singleton.1 himt
  rfl

theorem level?_pos {id : Nat} {target : Target ℝ} {level : ℝ}
    (h : Target.level? config.request.levels inputs.curves id target = some level) : 0 < level := by
  unfold Target.level? at h
  split at h
  · next found hfound =>
    cases h
    have hmem : (target.imt, level) ∈ [("PGA", (1 / 10 : ℝ))] :=
      Std.TreeMap.mem_toList_iff_getElem?_eq_some.2 hfound
    rw [(Prod.mk.inj (List.mem_singleton.1 hmem)).2]
    norm_num
  · cases hpoe : target.poe with
    | none =>
      rw [hpoe] at h
      cases h
    | some poe =>
      rw [hpoe] at h
      cases h

/-! ### The geometry of the sample -/

theorem ruptures_source : source.ruptures = [rupture] := by
  simp [source, rupture, Source.ruptures, PointSource.ruptures, Recurrence.positiveRates,
    Recurrence.rates]

theorem magnitudes_eq : SourceModel.magnitudes inputs.models = some ⟨6, 6⟩ := by
  simp [SourceModel.magnitudes, inputs, source, SourceGroup.magnitudes, Span.unionAll,
    Source.magnitudes, Recurrence.magnitudes, Recurrence.rates]

/-- The site with its integration distance capped. -/
noncomputable def near : Site ℝ := capped config.maxDistance site

theorem distance_near : hypocenter.distance near.location = 0 := by
  simp [hypocenter, near, site, capped, Point.surface, Point.distance, Elementary.distance]

theorem near_le : hypocenter.distance near.location ≤ near.maxDistance := by
  have hmax : near.maxDistance = Min.min 100 200 := by
    simp [near, capped, Scalar.min_eq, Config.maxDistance, config, Config.empty, site]
  rw [distance_near, hmax]
  norm_num

theorem ofSite_eq : Extent.ofSite inputs.models near =
    ⟨some ⟨0, 0⟩, some ⟨0, 0⟩, none, some ⟨0, 0⟩⟩ := by
  have hcontribution : Extent.contribution? near rupture = some (0, 0, 0) := by
    refine (Extent.contribution?_eq_some rfl).2 ⟨near_le, ?_⟩
    rw [distance_near]
    rfl
  have hcontributions : (SourceModel.allSources inputs.models).flatMap
      (Extent.contributions near) = [(0, 0, 0)] := by
    have hsources : SourceModel.allSources inputs.models = [source] := rfl
    have hreach : ¬ near.maxDistance < source.minDistance near.location := not_lt.2 near_le
    rw [hsources, List.flatMap_singleton, Extent.contributions, if_neg hreach, ruptures_source,
      List.filterMap_cons_some hcontribution, List.filterMap_nil]
  rw [Extent.ofSite, hcontributions]
  simp [Extent.ofRuptures, Extent.add, Extent.empty, Span.extendByNumber, Span.extend, Span.single]

theorem indicesFit (h : FitsWord (config.rebin binning views).magWidth ⟨6, 6⟩) :
    IndicesFit (config.rebin binning views) inputs := by
  have hzero : ∀ width : ℝ, FitsWord width ⟨0, 0⟩ := by
    intro width
    have hword : (1 : Int) ≤ Int64.maxValue.toInt := by decide
    simpa [FitsWord] using hword
  refine ⟨fun span hspan => ?_, fun other hsite => ?_⟩
  · rw [magnitudes_eq] at hspan
    cases hspan
    exact h
  · obtain rfl := List.mem_singleton.1 hsite
    have hextent : Extent.ofSite inputs.models
        (capped (config.rebin binning views).maxDistance site) = _ := ofSite_eq
    rw [hextent]
    refine ⟨?_, ?_, ?_⟩
    · rintro s hs
      cases hs
      simpa [Extent.nonnegative, Scalar.max_eq] using hzero _
    · rintro s hs
      cases hs
      exact hzero _
    · rintro s hs
      cases hs
      exact hzero _

theorem properSources : ProperSources inputs := by
  intro m hm g hg s hs
  obtain rfl := List.mem_singleton.1 hm
  obtain rfl := List.mem_singleton.1 hg
  obtain rfl := List.mem_singleton.1 hs
  refine ⟨trivial, ?_, rfl, fun node hnode => ?_⟩
  · simp [Source.IsMade, source, Recurrence.fault?]
  · obtain rfl := List.mem_singleton.1 hnode
    norm_num [hypocenter]

/-! ### Its runs -/

theorem exists_prepares (binning : BinningConfig ℝ) (views : List String) :
    ∃ st skipped groups, Prepares (config.rebin binning views) inputs st skipped groups := by
  refine ⟨_, _, _, rfl, ⟨_, magnitudes_eq, settingOf_eq_ok.2 ⟨⟨?_, ?_⟩, rfl⟩⟩,
    workGroups_eq_ok.2 ⟨fun m hm g hg => ?_, rfl⟩⟩
  · exact List.nodup_singleton 0
  · intro other hsite
    obtain rfl := List.mem_singleton.1 hsite
    simp [capped, Scalar.min_eq, Config.maxDistance, Config.rebin, config, Config.empty, site]
  · obtain rfl := List.mem_singleton.1 hm
    obtain rfl := List.mem_singleton.1 hg
    exact ⟨_, rfl⟩

theorem contributions_ne_zero {st : Setting ℝ} {skipped : List Nat} {groups : List (WorkGroup ℝ)}
    (h : Prepares (config.rebin binning views) inputs st skipped groups)
    (hfeasible : AllFeasible st groups) : contributions st groups key ≠ 0 := by
  have hnear : near ∈ st.gridSites := by
    refine h.mem_gridSites.2 ⟨List.mem_singleton_self _, ?_⟩
    refine h.isSome_grids_iff.2 ⟨_, List.mem_singleton_self _, rfl, ?_⟩
    have hextent : Extent.ofSite inputs.models
        (capped (config.rebin binning views).maxDistance site) = _ := ofSite_eq
    rw [hextent]
    rfl
  have hregions : key.regions = st.regions := h.settings_eq.2.2.2.symm
  have hscenario := Scenario.ofRupture?_of_surface (r := rupture) rfl near
  rw [if_neg (not_lt.2 near_le)] at hscenario
  refine (h.contributions_ne_zero_iff hfeasible noRepeats.rebin).2
    ⟨_, site, List.mem_singleton_self _, ⟨List.mem_singleton_self _,
      ⟨rfl, List.mem_singleton_self _, List.mem_singleton_self _, rfl, hregions⟩, hnear, rfl⟩, ?_⟩
  refine List.ne_nil_of_mem (mem_causes.2 ⟨_, List.mem_singleton_self _, rfl, _,
    List.mem_singleton_self _, source, List.mem_singleton_self _,
    (mem_causesOf (e := ⟨"A", "A", rupture, _⟩)).2 ⟨near_le, rfl, rfl, ?_, hscenario⟩⟩)
  rw [ruptures_source]
  exact List.mem_singleton_self _

/-- With bins that are allowed the calculation succeeds and has a result. -/
theorem exists_result (binning : BinningConfig ℝ) (views : List String)
    (hvalid : (config.rebin binning views).validate = .ok ())
    (hfits : FitsWord (config.rebin binning views).magWidth ⟨6, 6⟩) :
    ∃ out m, run ⟨config.rebin binning views, .sequential, 1⟩ inputs = .ok out ∧
      out.results[key]? = some m := by
  obtain ⟨st, skipped, groups, hp⟩ := exists_prepares binning views
  have hpositive : ∀ a b c d : ℝ, 0 ≤ Elementary.distance a b c d :=
    fun a b c d => add_nonneg (abs_nonneg _) (abs_nonneg _)
  have hfeasible : AllFeasible st groups :=
    hp.allFeasible_of_answered hvalid (indicesFit hfits) hpositive properSources
      fun w hw s v hv => hp.answered_of_lognormal isLognormal
        (fun _ _ hm _ himt => coefficients hm himt) (fun _ _ _ => level?_pos) hw hv
  obtain ⟨out, hout, hgathers, -⟩ := (runsTo_run
    ⟨config.rebin binning views, .sequential, 1⟩ inputs).gathers_of_feasible hp hfeasible
  obtain ⟨m, hm⟩ := Option.isSome_iff_exists.1
    ((hgathers.isSome_iff key).2 (contributions_ne_zero hp hfeasible))
  exact ⟨out, m, hout, hm⟩

/-- With allowed bins and views the configuration is valid. -/
theorem validate_rebin (binning : BinningConfig ℝ) (views : List String)
    (hpositive : (config.rebin binning views).positiveViolation? = none)
    (hcount : (config.rebin binning views).countViolation? = none)
    (hviews : (config.rebin binning views).viewViolation? = none) :
    (config.rebin binning views).validate = .ok () := by
  have htoList : (config.rebin binning views).request.levels.toList = [("PGA", 1 / 10)] := rfl
  have himts : (config.rebin binning views).request.imts = [] := rfl
  have hlevels : (config.rebin binning views).levelsViolation? = none := by
    simp [Config.levelsViolation?, htoList, himts, Config.levelViolation?, Scalar.isPositive_iff]
  have hviolation : (config.rebin binning views).violation? = none := by
    unfold Config.violation?
    rw [hpositive, hcount, hviews, hlevels]
    rfl
  unfold Config.validate
  rw [hviolation]

theorem validate_config : config.validate = .ok () :=
  validate_rebin config.binning [] rfl rfl rfl

theorem validate_coarse : (config.rebin coarse ["Mag", "Lon_Lat"]).validate = .ok () := by
  refine validate_rebin _ _ ?_ rfl rfl
  simp [Config.positiveViolation?, Config.positiveSettings, Config.rebin, coarse, config,
    Config.empty, Scalar.isPositive_iff]

end RealSample

open RealSample in
/-- The default bins with all views, and wider bins with two views. -/
theorem aggregates_independent_of_bins_sample : ∃ c c' out out' m m',
    withExecutor RealSample.config .sequential 1 = .ok c ∧
    withExecutor (RealSample.config.rebin coarse ["Mag", "Lon_Lat"]) .sequential 1 = .ok c' ∧
    c.run inputs = .ok out ∧ c'.run inputs = .ok out' ∧
    out.results[key]? = some m ∧ out'.results[key]? = some m' ∧
    ∃ r ∈ inputs.tree.realizations, ∃ site ∈ inputs.sites.toList, ∃ p,
      p = 1 - Real.exp (-RealSample.config.time *
        exceedanceRate RealSample.config inputs models r site key) ∧
      m.aggregates = List.replicate 8 p ∧ m'.aggregates = [p, p] := by
  have hfits : FitsWord RealSample.config.magWidth ⟨6, 6⟩ := by
    have hword : 13 ≤ Int64.maxValue.toInt := by decide
    have hindex : (6 : ℝ) / RealSample.config.magWidth = 12 := by
      norm_num [Config.magWidth, RealSample.config, Config.empty, Scalar.ratio]
    simpa [FitsWord, hindex] using hword
  have hfits' : FitsWord (RealSample.config.rebin coarse ["Mag", "Lon_Lat"]).magWidth ⟨6, 6⟩ := by
    have hword : 7 ≤ Int64.maxValue.toInt := by decide
    simpa [FitsWord, Config.magWidth, Config.rebin, coarse] using hword
  obtain ⟨out, m, hout, hm⟩ :=
    exists_result RealSample.config.binning [] validate_config hfits
  obtain ⟨out', m', hout', hm'⟩ := exists_result coarse _ validate_coarse hfits'
  have hc : withExecutor RealSample.config .sequential 1 = .ok ⟨_, _, _⟩ :=
    withExecutor_eq_ok.2 ⟨validate_config, rfl, rfl⟩
  have hc' : withExecutor (RealSample.config.rebin coarse ["Mag", "Lon_Lat"]) .sequential 1 =
      .ok ⟨_, _, _⟩ := withExecutor_eq_ok.2 ⟨validate_coarse, rfl, rfl⟩
  obtain ⟨r, hr, -, site, hsite, -, -, haggregates, haggregates'⟩ :=
    (aggregates_independent_of_bins exponentialLaws isLognormal noRepeats hc hc'
      (hout ▸ runsTo_run _ _) (hout' ▸ runsTo_run _ _) key).2 m m' hm hm'
  exact ⟨_, _, out, out', m, m', hc, hc', hout, hout', hm, hm', r, hr, site, hsite, _, rfl,
    haggregates, haggregates'⟩

end Calculation

end SeismicHazard
