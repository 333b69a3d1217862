import Mathlib.Algebra.BigOperators.Ring.List
import Mathlib.Tactic.Ring
import SeismicHazard.Proofs.Calculation.Causes
import SeismicHazard.Proofs.GroundMotion.Lognormal

/-!
# The rate at which a level is exceeded

With lognormal models the overall probability of a result is that of an exceedance of its level within
the investigation time, where every rupture that counts for the site exceeds the level at its own rate.

* `ExponentialLaws`: what is assumed of the exponential.
* `Calculation.exceedanceRate`: the yearly rate at which a level is exceeded.
* `Calculation.Prepares.aggregates_eq`: the overall probabilities of a result.
* `Calculation.Prepares.answered_of_lognormal`: when all models answer.
-/

namespace SeismicHazard

/-- Whether the exponential turns sums into products. -/
structure ExponentialLaws (α : Type) [Field α] [Elementary α] : Prop where
  exp_add : ∀ x y : α, Elementary.exp (x + y) = Elementary.exp x * Elementary.exp y
  exp_zero : Elementary.exp (0 : α) = 1

section

variable {α : Type} [Field α] [Elementary α]

theorem ExponentialLaws.prod_map_exp (h : ExponentialLaws α) {β : Type} (f : β → α) (xs : List β) :
    (xs.map fun x => Elementary.exp (f x)).prod = Elementary.exp (xs.map f).sum := by
  induction xs with
  | nil => exact h.exp_zero.symm
  | cons x xs ih => rw [List.map_cons, List.prod_cons, ih, List.map_cons, List.sum_cons, h.exp_add]

end

section

variable {α : Type} [Field α] [LinearOrder α] [FloorRing α]

/-- The product of all factors does not depend on the cells that they belong to. -/
theorem prod_factorsOf {g : Grid α} {numRegions : Nat} {cs : Multiset (Contribution α)}
    (h : ∀ c ∈ cs, c.Fits g numRegions) :
    ((factorsOf g numRegions cs).map (·.2)).prod = (cs.map fun c => c.pnes.prod).prod := by
  rw [factorsOf, Multiset.map_bind, Multiset.prod_bind]
  refine congrArg Multiset.prod (Multiset.map_congr rfl fun c hc => ?_)
  obtain ⟨at_, hat⟩ := (h c hc).placed
  have hpnes : (c.pnes.mapIdx fun e pne => (cellOf at_ e, pne)).map (·.2) = c.pnes := by
    apply List.ext_getElem
    · simp
    · intro i _ _
      simp
  rw [c.factors_eq hat, Multiset.map_coe, hpnes, Multiset.prod_coe]

end

namespace Calculation

section

variable {α : Type} [Field α] [LinearOrder α] [FloorRing α] [Elementary α] {config : Config α}
  {inputs : Inputs α} {models : String → Option (LognormalModel α)} {k : ResultKey α}
  {r : Realization α} {site : Site α}

/-- The probability that a rupture leads to an exceedance of the level of a result, from the model
that the realization of the result assigns to the group of the rupture. -/
def Cause.exceedance? (e : Cause α) (models : String → Option (LognormalModel α)) (truncation : α)
    (r : Realization α) (k : ResultKey α) : Option α := do
  let name ← r.groundMotion[e.group]?
  let model ← models name
  model.exceedanceOf? truncation e.scenario k.imt k.level

/-- The yearly rate at which the ruptures that count for a result exceed its level. -/
def exceedanceRate (config : Config α) (inputs : Inputs α)
    (models : String → Option (LognormalModel α)) (r : Realization α) (site : Site α)
    (k : ResultKey α) : α :=
  ((causes inputs r.sourceModel (capped config.maxDistance site)).map fun e =>
    e.rupture.rate * (e.exceedance? models config.truncation r k).getD 0).sum

/-! ### One rupture -/

section

variable [IsStrictOrderedRing α]

omit [IsStrictOrderedRing α] in
/-- The probabilities of exceedance are the answer of a lognormal model. -/
theorem Cause.exists_of_poes? {e : Cause α} (hmodels : inputs.library.IsLognormal models)
    {poes : List α} (h : e.poes? config inputs r k = some poes) :
    ∃ name lognormal, r.groundMotion[e.group]? = some name ∧ models name = some lognormal ∧
      lognormal.exceedance e.scenario ⟨k.imt, k.level, config.truncation,
        epsilonEdges config.truncation config.epsilonBins⟩ = .ok poes := by
  simp only [poes?, Option.bind_eq_bind, Option.bind_eq_some_iff] at h
  obtain ⟨name, hname, model, hget, hexceedance⟩ := h
  obtain ⟨lognormal, hmodel, rfl⟩ := hmodels.exists_of_get (Fallible.toOption_eq_some.1 hget)
  exact ⟨name, lognormal, hname, hmodel, Fallible.toOption_eq_some.1 hexceedance⟩

/-- The epsilon bins of a rupture share its probability of exceedance. -/
theorem Cause.exceedance?_of_poes? {e : Cause α} (hmodels : inputs.library.IsLognormal models)
    (htruncation : 0 < config.truncation) {poes : List α}
    (h : e.poes? config inputs r k = some poes) :
    e.exceedance? models config.truncation r k = some poes.sum := by
  obtain ⟨name, lognormal, hname, hmodel, hanswer⟩ := e.exists_of_poes? hmodels h
  simp only [exceedance?, Option.bind_eq_bind, hname, hmodel, Option.bind_some]
  exact LognormalModel.sum_exceedance htruncation hanswer

/-- What the epsilon bins of a rupture multiply to. -/
theorem Cause.prod_pnes {e : Cause α} (hexp : ExponentialLaws α)
    (hmodels : inputs.library.IsLognormal models) (htruncation : 0 < config.truncation)
    {poes : List α} (h : e.poes? config inputs r k = some poes) :
    (e.pnes config inputs r k).prod = Elementary.exp (-config.time *
      (e.rupture.rate * (e.exceedance? models config.truncation r k).getD 0)) := by
  rw [e.exceedance?_of_poes? hmodels htruncation h, Option.getD_some, pnes, h, Option.getD_some]
  unfold Rupture.nonExceedance
  rw [hexp.prod_map_exp, List.sum_map_mul_left, List.map_id']
  congr 1
  ring

end

/-! ### One calculation -/

variable {st : Setting α} {skipped : List Nat} {groups : List (WorkGroup α)} {results : Results α}
  {m : Marginals α} {w : WorkGroup α} {v : Sighting α}

namespace Prepares

/-- Lognormal models answer if they have coefficients for the measures and all levels are positive. -/
theorem answered_of_lognormal (h : Prepares config inputs st skipped groups)
    (hmodels : inputs.library.IsLognormal models)
    (hcoefficients : ∀ name model, models name = some model → ∀ imt ∈ config.measures,
      model.coefficients[imt]?.isSome)
    (hlevels : ∀ id target level,
      Target.level? config.request.levels inputs.curves id target = some level → 0 < level)
    (hw : w ∈ groups) {s : Source α} (hv : v ∈ w.sightings st s) : w.Answered st v := by
  obtain ⟨m, hm, g, hg, hwork⟩ := h.mem_groups.1 hw
  have hworks := worksOn_of_workGroup? hwork
  rw [WorkGroup.Answered, h.levels_of_mem_sightings hworks hv, WorkGroup.leveled_map]
  intro tl htl
  obtain ⟨target, htarget, rfl⟩ := List.mem_map.1 htl
  cases hlevel : Target.level? config.request.levels inputs.curves v.site.id target with
  | none => rfl
  | some level =>
    obtain ⟨model, hlibrary, hget⟩ := hworks.models target htarget
    obtain ⟨lognormal, hlognormal, rfl⟩ := hmodels.exists_of_get hlibrary
    have himt := ((hworks.targets target).1 htarget).2.1
    obtain ⟨poes, hpoes, hlength⟩ := lognormal.exists_exceedance (s := v.scenario)
      (q := ⟨target.imt, level, st.truncation, st.epsilonEdges⟩) (hlevels _ _ _ hlevel)
      (hcoefficients _ _ hlognormal _ himt)
    rw [WorkGroup.pnes?, Option.isSome_map, WorkGroup.answer?_eq_some.2 ⟨_, hget, hpoes, hlength⟩]
    rfl

variable [IsStrictOrderedRing α]

/-- The overall probabilities of a result: the exceedances of its level make a Poisson process. -/
theorem aggregates_eq (h : Prepares config inputs st skipped groups)
    (hvalid : config.validate = .ok ()) (hfeasible : AllFeasible st groups)
    (hgathers : results.Gathers st (contributions st groups)) (hrepeats : NoRepeats config inputs)
    (hexp : ExponentialLaws α) (hmodels : inputs.library.IsLognormal models)
    (hc : Concerns config inputs st k r site) (hm : results[k]? = some m) :
    (∀ e ∈ causes inputs r.sourceModel (capped config.maxDistance site),
      (e.exceedance? models config.truncation r k).isSome) ∧
    m.aggregates = List.replicate config.marginals.length
      (1 - Elementary.exp (-config.time * exceedanceRate config inputs models r site k)) := by
  have htruncation := Config.truncation_pos hvalid
  have hpoes : ∀ e ∈ causes inputs r.sourceModel (capped config.maxDistance site),
      ∃ poes, e.poes? config inputs r k = some poes := by
    intro e he
    obtain ⟨-, poes, hpoes, -⟩ := h.of_cause hfeasible hrepeats hc he
    exact ⟨poes, hpoes⟩
  refine ⟨fun e he => ?_, ?_⟩
  · obtain ⟨poes, hpoes⟩ := hpoes e he
    rw [e.exceedance?_of_poes? hmodels htruncation hpoes]
    rfl
  · obtain ⟨-, g, -, hfits, rfl⟩ := hgathers.exists_gather hm
    obtain ⟨-, -, hmarginals, -⟩ := h.settings_eq
    have hcells : ∀ x ∈ factorsOf g st.regions.length (contributions st groups k),
        x.1 ∈ Tensor.cells (g.shape st.regions.length) :=
      mem_cells_of_mem_factorsOf fun c hc => (hfits c hc).length
    rw [Setting.gather, Marginals.aggregates_ofFactors _ hcells, prod_factorsOf hfits, hmarginals]
    refine congrArg (List.replicate _) ?_
    calc 1 - ((contributions st groups k).map fun c => c.pnes.prod).prod
        = 1 - ((causes inputs r.sourceModel (capped config.maxDistance site)).map fun e =>
            (e.pnes config inputs r k).prod).prod := by
          rw [h.contributions_eq_causes hfeasible hrepeats hc, Multiset.map_coe,
            Multiset.prod_coe, List.map_map]
          rfl
      _ = 1 - ((causes inputs r.sourceModel (capped config.maxDistance site)).map fun e =>
            Elementary.exp (-config.time *
              (e.rupture.rate * (e.exceedance? models config.truncation r k).getD 0))).prod := by
          rw [List.map_congr_left fun e he =>
            e.prod_pnes hexp hmodels htruncation (hpoes e he).choose_spec]
      _ = 1 - Elementary.exp (-config.time * exceedanceRate config inputs models r site k) := by
          rw [hexp.prod_map_exp, List.sum_map_mul_left]
          rfl

end Prepares

end

end Calculation

end SeismicHazard
