import SeismicHazard.Proofs.Calculation.ExceedanceRate
import SeismicHazard.Proofs.Curve.Level
import SeismicHazard.Proofs.Curve.Table
import SeismicHazard.Proofs.Result.Below

/-!
# Results for lower thresholds

A lower threshold is reached at a higher level, and what exceeds a higher level exceeds a lower one.
So if a calculation with lognormal models is asked about two thresholds of one measure at one site,
the result for the lower one is below that for the other.

* `Inputs.WellFormed`: inputs that pass their checks.
* `ResultKey.Asks`: what a result with a threshold is about.
* `Calculation.levelAt?`: the level of a threshold.
* `Calculation.Prepares.contributions_below`: what the ruptures contribute to both results.
* `Calculation.results_below_of_threshold_le`: both results, or none.
-/

namespace SeismicHazard

section

variable {α : Type} [Field α] [LinearOrder α] [FloorRing α]

/-- Whether the models of the library and the hazard curves pass their checks, all models are
lognormal, and no listed rupture has a negative rate. -/
structure Inputs.WellFormed [Elementary α] (inputs : Inputs α)
    (models : String → Option (LognormalModel α)) : Prop where
  library : inputs.library.IsLognormal models
  models : ∀ name m, models name = some m → m.IsMade
  curves : ∀ site realization set, inputs.curves.get? site realization = some set →
    ∀ imt c, set.get? imt = some c → c.IsMade
  rates : ∀ m ∈ inputs.models, ∀ g ∈ m.groups, ∀ l, Source.listed l ∈ g.sources →
    ∀ r ∈ l.ruptures, 0 ≤ r.rate

/-- Whether a result is about a threshold of a measure at a site, for a realization. -/
structure ResultKey.Asks (k : ResultKey α) (site realization : Nat) (imt : String) (poe : α) :
    Prop where
  site : k.site = site
  realization : k.realization = realization
  imt : k.imt = imt
  poe : k.poe = some poe

namespace Calculation

/-! ### Levels -/

/-- The hazard curve of a measure at a site, unless it is zero everywhere. -/
def curveOf? (inputs : Inputs α) (site realization : Nat) (imt : String) : Option (Curve α) := do
  let set ← inputs.curves.get? site realization
  let curve ← set.get? imt
  if curve.isZero then none else some curve

/-- The level of a threshold: the one given for the measure, or else that of the hazard curve. -/
def levelAt? (config : Config α) (inputs : Inputs α) (site realization : Nat) (imt : String)
    (poe : α) : Option α :=
  config.request.levels[imt]?.or ((curveOf? inputs site realization imt).map (·.levelAt poe))

variable {config : Config α} {inputs : Inputs α} {site realization : Nat} {imt : String} {p q : α}
  {k k' : ResultKey α}

theorem levelOf?_eq (hk : k.Asks site realization imt p) :
    levelOf? config inputs k = levelAt? config inputs site realization imt p := by
  obtain ⟨rfl, rfl, rfl, hpoe⟩ := hk
  unfold levelOf? levelAt? curveOf?
  rw [hpoe]
  cases config.request.levels[k.imt]? with
  | some level => rfl
  | none =>
    simp only [Option.none_or, Option.bind_eq_bind, Option.bind_some, Option.map_bind]
    refine Option.bind_congr fun set _ => ?_
    rw [Function.comp_apply, Option.map_bind]
    refine Option.bind_congr fun curve _ => ?_
    rw [Function.comp_apply]
    split <;> rfl

theorem isSome_levelAt?_congr : (levelAt? config inputs site realization imt p).isSome =
    (levelAt? config inputs site realization imt q).isSome := by
  simp [levelAt?]

section

variable [Elementary α] {models : String → Option (LognormalModel α)}

theorem isMade_of_curveOf? (hinputs : inputs.WellFormed models) {c : Curve α}
    (hc : curveOf? inputs site realization imt = some c) : c.IsMade := by
  simp only [curveOf?, Option.bind_eq_bind, Option.bind_eq_some_iff] at hc
  obtain ⟨set, hset, curve, hcurve, hc⟩ := hc
  obtain ⟨-, hc⟩ := Option.ite_none_left_eq_some.1 hc
  cases hc
  exact hinputs.curves _ _ set hset _ c hcurve

variable [IsStrictOrderedRing α]

/-- A higher threshold has no higher level. -/
theorem levelAt?_anti (hinputs : inputs.WellFormed models) (hpq : p ≤ q) {a b : α}
    (ha : levelAt? config inputs site realization imt p = some a)
    (hb : levelAt? config inputs site realization imt q = some b) : b ≤ a := by
  unfold levelAt? at ha hb
  cases hlevel : config.request.levels[imt]? with
  | some level =>
    rw [hlevel, Option.some_or] at ha hb
    cases ha
    cases hb
    exact le_rfl
  | none =>
    rw [hlevel, Option.none_or] at ha hb
    obtain ⟨c, hc, rfl⟩ := Option.map_eq_some_iff.1 ha
    obtain ⟨c', hc', rfl⟩ := Option.map_eq_some_iff.1 hb
    cases hc.symm.trans hc'
    exact Curve.levelAt_anti (isMade_of_curveOf? hinputs hc) hpq

/-! ### One rupture -/

variable {r : Realization α} {place : Site α} {e : Cause α} {st : Setting α} {skipped : List Nat}
  {groups : List (WorkGroup α)}

/-- No rupture that counts for a site has a negative rate. -/
theorem rate_nonneg (hinputs : inputs.WellFormed models) {n : Nat}
    (he : e ∈ causes inputs n place) : 0 ≤ e.rupture.rate := by
  obtain ⟨m, hm, -, g, hg, s, hs, he⟩ := mem_causes.1 he
  obtain ⟨-, -, -, hrupture, -⟩ := mem_causesOf.1 he
  cases s with
  | point s => exact (Source.rate_pos (s := .point s) trivial hrupture).le
  | area s => exact (Source.rate_pos (s := .area s) trivial hrupture).le
  | listed s => exact hinputs.rates m hm g hg s hs _ hrupture

/-- What a rupture contributes to one of two results, that with the higher level, is below what it
contributes to the other one. -/
theorem Cause.contribution_below (hlaws : MonotoneLaws α) (hinputs : inputs.WellFormed models)
    (hmass : 0 < LognormalModel.truncatedMass config.truncation) (htime : 0 < config.time)
    (hrate : 0 ≤ e.rupture.rate) (himt : k.imt = k'.imt) (hlevel : k'.level ≤ k.level)
    {poes poes' : List α} (h : e.poes? config inputs r k = some poes)
    (h' : e.poes? config inputs r k' = some poes') (regions : List String) :
    (e.contribution config inputs r regions k).Below
      (e.contribution config inputs r regions k') := by
  obtain ⟨name, m, hname, hm, hanswer⟩ := e.exists_of_poes? hinputs.library h
  obtain ⟨name', m', hname', hm', hanswer'⟩ := e.exists_of_poes? hinputs.library h'
  cases hname.symm.trans hname'
  cases hm.symm.trans hm'
  rw [himt] at hanswer
  have hpoes : List.Forall₂ (· ≤ ·) poes poes' :=
    LognormalModel.exceedance_anti hlaws.ln_monotoneOn hlaws.normalCdf_monotone
      (hinputs.models _ _ hm) hmass hlevel hanswer hanswer'
  refine ⟨rfl, ?_⟩
  simp only [contribution, pnes, h, h', Option.getD_some]
  rw [List.forall₂_map_left_iff, List.forall₂_map_right_iff]
  refine hpoes.imp fun poe poe' hle => ⟨hlaws.exp_pos _, hlaws.exp_le _ _ ?_⟩
  exact mul_le_mul_of_nonpos_left hle
    (mul_nonpos_of_nonpos_of_nonneg (neg_nonpos.2 hrate) htime.le)

/-! ### Both results -/

namespace Prepares

omit [IsStrictOrderedRing α] in
/-- Results about one ordinal and one id are about one realization and one site. -/
theorem eq_of_concerns (h : Prepares config inputs st skipped groups)
    (hrepeats : NoRepeats config inputs) {r' : Realization α} {place' : Site α}
    (hc : Concerns config inputs st k r place) (hc' : Concerns config inputs st k' r' place')
    (hplace : place ∈ inputs.sites.toList) (hplace' : place' ∈ inputs.sites.toList)
    (hsite : k.site = k'.site) (hrealization : k.realization = k'.realization) :
    r = r' ∧ place = place' := by
  have hnodup : inputs.sites.ids.Nodup := ids_cappedSites config inputs ▸ h.nodup_ids
  constructor
  · refine List.inj_on_of_nodup_map hrepeats.ordinals hc.realization hc'.realization ?_
    rw [← hc.requested.realization, ← hc'.requested.realization, hrealization]
  · refine List.inj_on_of_nodup_map hnodup hplace hplace' ?_
    rw [← hc.id, ← hc'.id, hsite]

/-- What is contributed to one of two results, that with the higher level, is below what is
contributed to the other one. -/
theorem contributions_below (h : Prepares config inputs st skipped groups)
    (hvalid : config.validate = .ok ()) (hfeasible : AllFeasible st groups)
    (hrepeats : NoRepeats config inputs) (hlaws : MonotoneLaws α)
    (hinputs : inputs.WellFormed models)
    (hmass : 0 < LognormalModel.truncatedMass config.truncation) (himt : k.imt = k'.imt)
    (hlevel : k'.level ≤ k.level) (hc : Concerns config inputs st k r place)
    (hc' : Concerns config inputs st k' r place) :
    Multiset.Rel Contribution.Below (contributions st groups k) (contributions st groups k') := by
  rw [h.contributions_eq_causes hfeasible hrepeats hc,
    h.contributions_eq_causes hfeasible hrepeats hc', ← Multiset.map_coe, ← Multiset.map_coe,
    Multiset.rel_map]
  refine Multiset.rel_refl_of_refl_on fun e he => ?_
  obtain ⟨-, poes, hpoes, -⟩ := h.of_cause hfeasible hrepeats hc (Multiset.mem_coe.1 he)
  obtain ⟨-, poes', hpoes', -⟩ := h.of_cause hfeasible hrepeats hc' (Multiset.mem_coe.1 he)
  exact e.contribution_below hlaws hinputs hmass (Config.time_pos hvalid)
    (rate_nonneg hinputs (Multiset.mem_coe.1 he)) himt hlevel hpoes hpoes' st.regions

/-- If there is a result about one threshold, there is one about every other threshold. -/
theorem exists_asks (h : Prepares config inputs st skipped groups)
    (hfeasible : AllFeasible st groups) (hrepeats : NoRepeats config inputs) {results : Results α}
    (hgathers : results.Gathers st (contributions st groups)) (hq : q ∈ config.request.poes)
    (hk : k.Asks site realization imt p) (hsome : results[k]?.isSome) :
    ∃ k' : ResultKey α, k'.Asks site realization imt q ∧ results[k']?.isSome := by
  have hne := (hgathers.isSome_iff k).1 hsome
  obtain ⟨r, place, hplace, hc, hcauses⟩ :=
    (h.contributions_ne_zero_iff hfeasible hrepeats).1 hne
  have hlevel : (levelAt? config inputs site realization imt q).isSome := by
    rw [isSome_levelAt?_congr (q := p), ← levelOf?_eq hk, hc.requested.level]
    rfl
  obtain ⟨level, hlevel⟩ := Option.isSome_iff_exists.1 hlevel
  obtain ⟨hrealization, hpoe, himt, -, hregions⟩ := hc.requested
  have hk' : ResultKey.Asks ⟨site, realization, some q, imt, level, st.regions⟩ site realization imt
      q := ⟨rfl, rfl, rfl, rfl⟩
  refine ⟨_, hk', (hgathers.isSome_iff _).2 ?_⟩
  refine (h.contributions_ne_zero_iff hfeasible hrepeats).2 ⟨r, place, hplace, ?_, hcauses⟩
  refine ⟨hc.realization, ⟨hk.realization ▸ hrealization, ?_, hk.imt ▸ himt, ?_, rfl⟩, hc.near,
    hk.site ▸ hc.id⟩
  · exact Config.mem_thresholds hq
  · rw [levelOf?_eq hk', hlevel]

end Prepares

variable [BitPattern α] {c : Calculation α} {out : Outcome α}

/-- Lower thresholds have no greater results. If a calculation with lognormal models is asked about
two thresholds of a measure, then for every site and realization it has results for both or for none,
the level of the lower threshold is not below that of the other one, and no cell of any view of its
result has a greater probability than the same cell of the other result. -/
theorem results_below_of_threshold_le {x : Executor} {workers : Nat} (hlaws : MonotoneLaws α)
    (hinputs : inputs.WellFormed models)
    (hmass : 0 < LognormalModel.truncatedMass config.truncation)
    (hrepeats : NoRepeats config inputs) (hc : withExecutor config x workers = .ok c)
    (hrun : c.RunsTo inputs (.ok out)) (hp : p ∈ config.request.poes)
    (hq : q ∈ config.request.poes) (hpq : p ≤ q)
    (site realization : Nat) (imt : String) :
    ((∃ k : ResultKey α, k.Asks site realization imt p ∧ out.results[k]?.isSome) ↔
      ∃ k : ResultKey α, k.Asks site realization imt q ∧ out.results[k]?.isSome) ∧
    ∀ (k k' : ResultKey α) (m m' : Marginals α), k.Asks site realization imt p →
      k'.Asks site realization imt q → out.results[k]? = some m → out.results[k']? = some m' →
        k'.level ≤ k.level ∧ m.Below m' := by
  obtain ⟨hvalid, -, rfl⟩ := withExecutor_eq_ok.1 hc
  obtain ⟨st, skipped, groups, h, hfeasible, hgathers, -⟩ := hrun.gathers
  refine ⟨⟨?_, ?_⟩, fun k k' m m' hk hk' hm hm' => ?_⟩
  · rintro ⟨k, hk, hsome⟩
    exact h.exists_asks hfeasible hrepeats hgathers hq hk hsome
  · rintro ⟨k, hk, hsome⟩
    exact h.exists_asks hfeasible hrepeats hgathers hp hk hsome
  · obtain ⟨hne, g, hg, -, rfl⟩ := hgathers.exists_gather hm
    obtain ⟨hne', g', hg', -, rfl⟩ := hgathers.exists_gather hm'
    rw [hk.site] at hg
    rw [hk'.site] at hg'
    cases hg.symm.trans hg'
    obtain ⟨r, place, hplace, hc, -⟩ := (h.contributions_ne_zero_iff hfeasible hrepeats).1 hne
    obtain ⟨r', place', hplace', hc', -⟩ := (h.contributions_ne_zero_iff hfeasible hrepeats).1 hne'
    obtain ⟨rfl, rfl⟩ := h.eq_of_concerns hrepeats hc hc' hplace hplace'
      (hk.site.trans hk'.site.symm) (hk.realization.trans hk'.realization.symm)
    have hlevel : k'.level ≤ k.level := levelAt?_anti hinputs hpq
      ((levelOf?_eq hk).symm.trans hc.requested.level)
      ((levelOf?_eq hk').symm.trans hc'.requested.level)
    exact ⟨hlevel, st.gather_below g (h.contributions_below hvalid hfeasible hrepeats hlaws hinputs
      hmass (hk.imt.trans hk'.imt.symm) hlevel hc hc')⟩

end

end Calculation

end

namespace Calculation

open Std (TreeMap)

/-! ### A sample -/

namespace ThresholdSample

/-- Rational stand-ins for the functions beyond arithmetic, which preserve the order. Distances are
in degrees, the shorter way around. -/
scoped instance : Elementary ℚ where
  exp x := if x < 0 then 1 / (1 - x) else 1 + x
  ln x := x
  powTen x := 1 + x
  sqrt x := x
  normalCdf x := Max.max 0 (Min.min 1 ((x + 4) / 8))
  distance a b c d := abs (180 - abs (180 - abs (a - c))) + abs (b - d)

/-- Fingerprints that cannot tell numbers apart. -/
scoped instance : BitPattern ℚ where
  toBits _ := 0
  ofBits _ := 0

/-- Two thresholds are asked for, everything else is left at its default. -/
def config : Config ℚ :=
  { Config.empty with request := ⟨none, none, none, [1 / 10, 3 / 10], ∅, ["PGA"]⟩ }

def model : LognormalModel ℚ :=
  ⟨"G", TreeMap.ofList [("PGA", (⟨-1, 1 / 2, 1 / 100, 10, 1⟩ : Attenuation ℚ))]⟩

def models (name : String) : Option (LognormalModel ℚ) :=
  if model.name = name then some model else none

def curve : Curve ℚ := ⟨[1 / 10, 2 / 5, 3 / 5], [1 / 2, 1 / 5, 1 / 20]⟩

/-- The sources and the site of the small calculation. -/
def inputs : Inputs ℚ :=
  { Sample.inputs with
    library := .ofList [model.toModel]
    curves := CurveTable.empty.insert 0 0 ⟨TreeMap.ofList [("PGA", curve)]⟩ }

def calculation : Calculation ℚ := ⟨config, .sequential, 1⟩

def key (poe level : ℚ) : ResultKey ℚ := ⟨0, 0, some poe, "PGA", level, ["A"]⟩

theorem monotoneLaws : MonotoneLaws ℚ where
  exp_pos x := by
    simp only [Elementary.exp]
    split
    · next h => exact one_div_pos.2 (by linarith)
    · next h => linarith
  exp_le x y h := by
    simp only [Elementary.exp]
    split
    · next hx =>
      split
      · next hy => exact one_div_le_one_div_of_le (by linarith) (by linarith)
      · next hy =>
        have hle : 1 / (1 - x) ≤ 1 := (div_le_one (by linarith)).2 (by linarith)
        linarith
    · next hx =>
      rw [if_neg (by linarith)]
      linarith
  ln_le x y _ h := h
  normalCdf_le x y h := max_le_max_left _ (min_le_min_left _ (by linarith))

theorem wellFormed : inputs.WellFormed models where
  library := ModelLibrary.isLognormal_singleton model
  models name m h := by
    obtain ⟨-, h⟩ := Option.ite_none_right_eq_some.1 h
    cases h
    have hnone : (model.coefficients.toList.find? fun p => !p.2.isProper) = none := by
      decide +kernel
    rw [LognormalModel.IsMade, LognormalModel.make, hnone]
  curves site realization set hset imt c hc := by
    have hcurve : curve.IsMade := by
      unfold Curve.IsMade Curve.make
      rw [if_neg (by decide), if_neg (by decide +kernel), if_neg (by decide +kernel)]
    simp only [inputs, CurveTable.get?, CurveTable.insert, CurveTable.empty,
      TreeMap.getElem?_insert, TreeMap.getElem?_emptyc, Option.ite_none_right_eq_some] at hset
    obtain ⟨-, hset⟩ := hset
    cases hset
    simp only [CurveSet.get?, TreeMap.ofList_singleton, TreeMap.getElem?_insert,
      TreeMap.getElem?_emptyc, Option.ite_none_right_eq_some] at hc
    obtain ⟨-, hc⟩ := hc
    cases hc
    exact hcurve
  rates m hm g hg l hl := by
    obtain rfl := List.mem_singleton.1 hm
    obtain rfl := List.mem_singleton.1 hg
    simp at hl

theorem exists_results : ∃ out m m', calculation.run inputs = .ok out ∧
    out.results[key (1 / 10) (8 / 15)]? = some m ∧
    out.results[key (3 / 10) (3 / 10)]? = some m' := by
  have hrun : (calculation.run inputs).toOption.any fun out =>
      out.results[key (1 / 10) (8 / 15)]?.isSome && out.results[key (3 / 10) (3 / 10)]?.isSome := by
    decide +kernel
  obtain ⟨out, hout, hsome⟩ := (Option.any_eq_true _ _).1 hrun
  obtain ⟨hm, hm'⟩ := (Bool.and_eq_true _ _).mp hsome
  obtain ⟨m, hm⟩ := Option.isSome_iff_exists.1 hm
  obtain ⟨m', hm'⟩ := Option.isSome_iff_exists.1 hm'
  exact ⟨out, m, m', Fallible.toOption_eq_some.1 hout, hm, hm'⟩

theorem withExecutor_config : withExecutor config .sequential 1 = .ok calculation := by
  apply withExecutor_of_toBool
  decide +kernel

end ThresholdSample

open ThresholdSample in
/-- Two thresholds on both sides of a point of the curve. -/
theorem results_below_of_threshold_le_sample : ∃ out m m',
    calculation.RunsTo inputs (.ok out) ∧ out.results[key (1 / 10) (8 / 15)]? = some m ∧
    out.results[key (3 / 10) (3 / 10)]? = some m' ∧
    (key (3 / 10) (3 / 10)).level ≤ (key (1 / 10) (8 / 15)).level ∧ m.Below m' := by
  obtain ⟨out, m, m', hout, hm, hm'⟩ := exists_results
  have hrun : calculation.RunsTo inputs (.ok out) := hout ▸ runsTo_run _ _
  have hmass : 0 < LognormalModel.truncatedMass ThresholdSample.config.truncation := by
    decide +kernel
  have hrepeats : NoRepeats ThresholdSample.config inputs :=
    ⟨by decide +kernel, List.nodup_singleton _, List.nodup_singleton 0⟩
  obtain ⟨-, hbelow⟩ := results_below_of_threshold_le (p := 1 / 10) (q := 3 / 10) monotoneLaws
    wellFormed hmass hrepeats withExecutor_config hrun List.mem_cons_self
    (List.mem_cons_of_mem _ List.mem_cons_self) (by norm_num) 0 0 "PGA"
  refine ⟨out, m, m', hrun, hm, hm', ?_⟩
  exact hbelow _ _ m m' ⟨rfl, rfl, rfl, rfl⟩ ⟨rfl, rfl, rfl, rfl⟩ hm hm'

end Calculation

end SeismicHazard
