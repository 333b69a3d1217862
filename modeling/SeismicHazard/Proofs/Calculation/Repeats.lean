import SeismicHazard.Proofs.Calculation.Event
import SeismicHazard.Proofs.Calculation.Reachable
import SeismicHazard.Proofs.Config.Request
import SeismicHazard.Proofs.Result.Merging
import SeismicHazard.Proofs.Sum
import SeismicHazard.Proofs.Task.Encounters

/-!
# Requests that repeat themselves

A threshold or an intensity measure type may be asked for several times. Then every rupture counts as
often for the results about it, as if there were several independent copies of the rupture.

* `Target.bind_all`: how often a target occurs among all targets.
* `Calculation.prepares_asking`: repeats change nothing but the targets.
* `Calculation.contributions_asking`: every contribution is repeated.
* `Setting.probability?_gather_nsmul`: what repeated contributions amount to.
* `Calculation.repeats_are_counted`: the results of a request with repeats.
-/

namespace SeismicHazard

/-! ### Targets -/

namespace Target

variable {α : Type} [BEq α] [LawfulBEq α] {γ : Type}

/-- The sum over all targets where only those with one threshold and one measure count. -/
theorem bind_all (byModel : Std.TreeMap String (List Nat)) (imts : List String)
    (thresholds : List (Option α)) {i : String} {p : Option α} {f : Target α → Multiset γ}
    (h : ∀ t : Target α, t.imt ≠ i ∨ t.poe ≠ p → f t = 0) :
    (all byModel imts thresholds : Multiset (Target α)).bind f =
      (imts.count i * thresholds.count p) • (byModel.toList : Multiset (String × List Nat)).bind
        fun m => (m.2 : Multiset Nat).bind fun r => f ⟨p, m.1, i, r⟩ := by
  have hrealization : ∀ (model : String) (r : Nat),
      ((imts.flatMap fun imt => thresholds.map fun poe => (⟨poe, model, imt, r⟩ : Target α)
        : List (Target α)) : Multiset (Target α)).bind f =
        (imts.count i * thresholds.count p) • f ⟨p, model, i, r⟩ := by
    intro model r
    have hthresholds : ∀ imt, ((thresholds.map fun poe => (⟨poe, model, imt, r⟩ : Target α)
        : List (Target α)) : Multiset (Target α)).bind f =
          thresholds.count p • f ⟨p, model, imt, r⟩ := by
      intro imt
      rw [← Multiset.map_coe, Multiset.bind_map]
      exact bind_eq_count_nsmul (f := fun poe => f ⟨poe, model, imt, r⟩) fun poe _ hpoe =>
        h _ (.inr hpoe)
    rw [← Multiset.coe_bind, Multiset.bind_assoc, Multiset.bind_congr fun imt _ => hthresholds imt,
      mul_nsmul']
    refine bind_eq_count_nsmul fun imt _ himt => ?_
    rw [h _ (.inl himt), nsmul_zero]
  unfold all
  rw [← Multiset.coe_bind, Multiset.bind_assoc, ← bind_nsmul]
  refine Multiset.bind_congr fun m _ => ?_
  rw [← Multiset.coe_bind, Multiset.bind_assoc, ← bind_nsmul]
  exact Multiset.bind_congr fun r _ => hrealization m.1 r

/-- Repeats among the thresholds and measures repeat what the targets sum up to. -/
theorem bind_all_of_nodup (byModel : Std.TreeMap String (List Nat)) {imts imts' : List String}
    {thresholds thresholds' : List (Option α)} (himts : ∀ i, i ∈ imts ↔ i ∈ imts')
    (hthresholds : ∀ p, p ∈ thresholds ↔ p ∈ thresholds') (hnodup : imts'.Nodup)
    (hnodup' : thresholds'.Nodup) {i : String} {p : Option α} {f : Target α → Multiset γ}
    (h : ∀ t : Target α, t.imt ≠ i ∨ t.poe ≠ p → f t = 0) :
    (all byModel imts thresholds : Multiset (Target α)).bind f =
      (imts.count i * thresholds.count p) •
        (all byModel imts' thresholds' : Multiset (Target α)).bind f := by
  rw [bind_all byModel imts thresholds h, bind_all byModel imts' thresholds' h]
  by_cases hi : i ∈ imts
  · by_cases hp : p ∈ thresholds
    · rw [List.count_eq_one_of_mem hnodup ((himts i).1 hi),
        List.count_eq_one_of_mem hnodup' ((hthresholds p).1 hp), one_mul, one_nsmul]
    · rw [List.count_eq_zero_of_not_mem hp, mul_zero, zero_nsmul, zero_nsmul]
  · rw [List.count_eq_zero_of_not_mem hi, zero_mul, zero_nsmul, zero_nsmul]

end Target

/-! ### Results -/

section

variable {α : Type} [Field α] [LinearOrder α] [FloorRing α]

theorem productWhere_nsmul {M : Type} [CommMonoid M] (n : Nat) (F : Multiset (List Nat × M))
    (p : List Nat → Prop) [DecidablePred p] : productWhere (n • F) p = productWhere F p ^ n := by
  simp [productWhere, Multiset.filter_nsmul, Multiset.map_nsmul, Multiset.prod_nsmul]

theorem factorsOf_nsmul (g : Grid α) (numRegions n : Nat) (cs : Multiset (Contribution α)) :
    factorsOf g numRegions (n • cs) = n • factorsOf g numRegions cs := by
  unfold factorsOf
  induction n with
  | zero => simp
  | succ n ih => rw [succ_nsmul, succ_nsmul, Multiset.add_bind, ih]

namespace Marginals

theorem layout_ofFactors (kinds : List Marginal) (shape : List Nat) (F : Multiset (List Nat × α)) :
    (ofFactors kinds shape F).layout = kinds.map fun kind => (kind, kind.project shape) := by
  simp [layout, ofFactors, Function.comp_def]

theorem probability?_ofFactors (kinds : List Marginal) (shape : List Nat)
    (F : Multiset (List Nat × α)) (view : Nat) (cell : List Nat) :
    (ofFactors kinds shape F).probability? view cell = kinds[view]?.bind fun kind =>
      if cell ∈ Tensor.cells (kind.project shape) then
        some (1 - productWhere F (kind.project · = cell)) else none := by
  unfold probability? ofFactors
  rw [List.getElem?_map]
  cases kinds[view]? with
  | none => rfl
  | some kind =>
    rw [Option.map_some, Option.bind_some, Option.bind_some]
    split
    · next h => exact kind.get?_ofFactors F h
    · next h =>
      unfold Tensor.get?
      rw [if_neg]
      exact h

end Marginals

/-- Contributions that are repeated combine as those of independent ruptures. -/
theorem Setting.probability?_gather_nsmul (st : Setting α) (g : Grid α) (n : Nat)
    (cs : Multiset (Contribution α)) (view : Nat) (cell : List Nat) :
    (st.gather g (n • cs)).probability? view cell =
      ((st.gather g cs).probability? view cell).map fun p => 1 - (1 - p) ^ n := by
  unfold Setting.gather
  rw [Marginals.probability?_ofFactors, Marginals.probability?_ofFactors, factorsOf_nsmul]
  cases st.marginals[view]? with
  | none => rfl
  | some kind =>
    rw [Option.bind_some, Option.bind_some]
    split
    · rw [productWhere_nsmul, Option.map_some, sub_sub_cancel]
    · rfl

end

/-! ### The work -/

namespace Calculation

section

variable {α : Type} [Field α] [LinearOrder α] [FloorRing α] {config : Config α}
  {inputs : Inputs α} {sites : Sites α} {m : SourceModel α} {g : SourceGroup α}
  {poes poes' : List α} {imts imts' : List String}

/-- The realizations of a group by ground-motion model, and the models that they name, if there are
any. -/
def modelsOf (inputs : Inputs α) (m : SourceModel α) (g : SourceGroup α) :
    Except (Error α) (Option (Std.TreeMap String (List Nat) × RegionModels α)) := do
  let byModel ← inputs.tree.byGroundMotion g.region m.ordinal
  if byModel.isEmpty then return none
  let models ← RegionModels.make g.region byModel.keys inputs.library
  return some (byModel, models)

/-- The work on a group of sources with the given models. -/
def workOn (config : Config α) (inputs : Inputs α) (sites : Sites α) (m : SourceModel α)
    (g : SourceGroup α) (byModel : Std.TreeMap String (List Nat)) (models : RegionModels α) :
    WorkGroup α :=
  let targets := Target.all byModel config.measures config.thresholds
  ⟨m.ordinal, g.id, g.sources, models, targets,
    Target.levels config.request.levels inputs.curves sites targets⟩

/-- Only the targets of the work and their levels depend on the configuration. -/
theorem workGroup_eq_map : workGroup config inputs sites m g =
    (modelsOf inputs m g).map (Option.map fun x => workOn config inputs sites m g x.1 x.2) := by
  unfold workGroup modelsOf
  cases inputs.tree.byGroundMotion g.region m.ordinal with
  | error e => rfl
  | ok byModel =>
    simp only [bind, Except.bind]
    split
    · rfl
    · cases RegionModels.make g.region byModel.keys inputs.library <;> rfl

theorem workGroup?_eq_map : workGroup? config inputs sites m g =
    (modelsOf inputs m g).toOption.join.map fun x => workOn config inputs sites m g x.1 x.2 := by
  unfold workGroup?
  rw [workGroup_eq_map]
  cases modelsOf inputs m g with
  | error e => rfl
  | ok x => cases x <;> rfl

theorem exists_workGroup_iff : (∃ x, workGroup config inputs sites m g = .ok x) ↔
    ∃ x, modelsOf inputs m g = .ok x := by
  rw [workGroup_eq_map]
  cases modelsOf inputs m g <;> simp [Except.map]

variable {byModel : Std.TreeMap String (List Nat)} {models : RegionModels α} {st : Setting α}
  {k : ResultKey α}

theorem workOn_hasLevels : (workOn config inputs st.sites m g byModel models).HasLevels st
    (Target.level? config.request.levels inputs.curves) :=
  fun _ hsite => Target.getElem?_levels _ hsite

theorem mem_targets_asking (h : SameRequests poes imts poes' imts') (t : Target α) :
    t ∈ (workOn (config.asking poes imts) inputs sites m g byModel models).targets ↔
      t ∈ (workOn (config.asking poes' imts') inputs sites m g byModel models).targets := by
  simp only [workOn, Target.all, List.mem_flatMap, List.mem_map, Config.mem_measures_asking h,
    Config.mem_thresholds_asking h]

variable [Elementary α]

theorem feasible_workOn_asking (h : SameRequests poes imts poes' imts') {s : Source α}
    (hs : (workOn (config.asking poes imts) inputs st.sites m g byModel models).Feasible st s) :
    (workOn (config.asking poes' imts') inputs st.sites m g byModel models).Feasible st s := by
  obtain ⟨hregion, hall⟩ := (WorkGroup.feasible_iff workOn_hasLevels).1 hs
  exact (WorkGroup.feasible_iff workOn_hasLevels).2
    ⟨hregion, fun e he t ht => hall e he t ((mem_targets_asking h t).2 ht)⟩

/-- A group of sources contributes to a result as often as the request repeats it. -/
theorem contributions_workOn_asking (h : SameRequests poes imts poes' imts')
    (hpoes : poes'.Nodup) (himts : imts'.Nodup) (s : Source α) :
    (workOn (config.asking poes imts) inputs st.sites m g byModel models).contributions st s k =
      ((config.asking poes imts).measures.count k.imt *
        (config.asking poes imts).thresholds.count k.poe) •
      (workOn (config.asking poes' imts') inputs st.sites m g byModel models).contributions st s k := by
  rw [WorkGroup.contributions_eq_bind workOn_hasLevels,
    WorkGroup.contributions_eq_bind workOn_hasLevels, ← bind_nsmul]
  refine Multiset.bind_congr fun e _ => ?_
  refine Target.bind_all_of_nodup byModel (Config.mem_measures_asking h)
    (Config.mem_thresholds_asking h) (Config.nodup_measures himts) (Config.nodup_thresholds hpoes) ?_
  intro t ht
  unfold WorkGroup.contributionAt
  rw [if_neg]
  intro hkey
  obtain ⟨-, -, hpoe, himt, -⟩ := key?_eq_some.1 hkey
  rcases ht with ht | ht
  · exact ht himt.symm
  · exact ht hpoe.symm

/-! ### What is prepared -/

variable {skipped : List Nat} {groups groups' : List (WorkGroup α)}

/-- The setting does not depend on the request, and there is one for all requests for the same. -/
theorem prepares_asking (h : SameRequests poes imts poes' imts')
    (hp : Prepares (config.asking poes imts) inputs st skipped groups) :
    ∃ groups', Prepares (config.asking poes' imts') inputs st skipped groups' := by
  refine ⟨_, ⟨?_, hp.setting, workGroups_eq_ok.2 ⟨fun m hm g hg => ?_, rfl⟩⟩⟩
  · rw [LogicTree.checkReachable_eq_ok]
    intro m hm r hr poe hpoe imt himt
    exact LogicTree.checkReachable_eq_ok.1 hp.reachable m hm r hr poe ((h.poes poe).2 hpoe) imt
      ((Config.mem_measures_asking h imt).2 himt)
  · exact exists_workGroup_iff.2 (exists_workGroup_iff.1 (hp.exists_workGroup hm hg))

theorem allFeasible_asking (h : SameRequests poes imts poes' imts')
    (hp : Prepares (config.asking poes imts) inputs st skipped groups)
    (hp' : Prepares (config.asking poes' imts') inputs st skipped groups')
    (hfeasible : AllFeasible st groups) : AllFeasible st groups' := by
  intro w' hw' s hs
  obtain ⟨m, hm, g, hg, hwork⟩ := hp'.mem_groups.1 hw'
  rw [workGroup?_eq_map] at hwork
  obtain ⟨x, hx, rfl⟩ := Option.map_eq_some_iff.1 hwork
  have hmem : workOn (config.asking poes imts) inputs st.sites m g x.1 x.2 ∈ groups := by
    refine hp.mem_groups.2 ⟨m, hm, g, hg, ?_⟩
    rw [workGroup?_eq_map, hx, Option.map_some]
  exact feasible_workOn_asking h (hfeasible _ hmem s hs)

theorem contributions_eq_bind_models (hp : Prepares config inputs st skipped groups)
    (k : ResultKey α) : contributions st groups k =
      (inputs.models : Multiset (SourceModel α)).bind fun m =>
        (m.groups : Multiset (SourceGroup α)).bind fun g =>
          (modelsOf inputs m g).toOption.join.elim 0 fun x =>
            ((workOn config inputs st.sites m g x.1 x.2).parts st.sites : Multiset (Source α)).bind
              fun s => (workOn config inputs st.sites m g x.1 x.2).contributions st s k := by
  unfold contributions
  rw [hp.groups_eq, ← Multiset.coe_bind, Multiset.bind_assoc]
  refine Multiset.bind_congr fun m _ => ?_
  rw [bind_filterMap]
  refine Multiset.bind_congr fun g _ => ?_
  rw [workGroup?_eq_map]
  cases (modelsOf inputs m g).toOption.join <;> rfl

/-- What contributes to a result does so as often as the request repeats it. -/
theorem contributions_asking (h : SameRequests poes imts poes' imts')
    (hpoes : poes'.Nodup) (himts : imts'.Nodup)
    (hp : Prepares (config.asking poes imts) inputs st skipped groups)
    (hp' : Prepares (config.asking poes' imts') inputs st skipped groups') (k : ResultKey α) :
    contributions st groups k = ((config.asking poes imts).measures.count k.imt *
      (config.asking poes imts).thresholds.count k.poe) • contributions st groups' k := by
  rw [contributions_eq_bind_models hp, contributions_eq_bind_models hp', ← bind_nsmul]
  refine Multiset.bind_congr fun m _ => ?_
  rw [← bind_nsmul]
  refine Multiset.bind_congr fun g _ => ?_
  cases (modelsOf inputs m g).toOption.join with
  | none => exact (nsmul_zero _).symm
  | some x =>
    rw [Option.elim_some, Option.elim_some, ← bind_nsmul]
    exact Multiset.bind_congr fun s _ =>
      contributions_workOn_asking h hpoes himts s

/-- Only what is asked for is contributed to. -/
theorem count_pos_of_contributions (h : SameRequests poes imts poes' imts')
    (hpoes : poes'.Nodup) (himts : imts'.Nodup)
    (hp' : Prepares (config.asking poes' imts') inputs st skipped groups')
    (hk : contributions st groups' k ≠ 0) : 0 < (config.asking poes imts).measures.count k.imt *
      (config.asking poes imts).thresholds.count k.poe := by
  have hself := contributions_asking ⟨fun _ => Iff.rfl, fun _ => Iff.rfl⟩ hpoes himts hp' hp' k
  have hcount : (config.asking poes' imts').measures.count k.imt *
      (config.asking poes' imts').thresholds.count k.poe ≠ 0 := by
    intro hzero
    rw [hzero, zero_nsmul] at hself
    exact hk hself
  have himt : k.imt ∈ (config.asking poes' imts').measures :=
    List.count_pos_iff.1 (Nat.pos_of_ne_zero (Nat.mul_ne_zero_iff.1 hcount).1)
  have hpoe : k.poe ∈ (config.asking poes' imts').thresholds :=
    List.count_pos_iff.1 (Nat.pos_of_ne_zero (Nat.mul_ne_zero_iff.1 hcount).2)
  exact Nat.mul_pos (List.count_pos_iff.2 ((Config.mem_measures_asking h _).2 himt))
    (List.count_pos_iff.2 ((Config.mem_thresholds_asking h _).2 hpoe))

/-- Something contributes to a result exactly if it does with the repeats removed. -/
theorem contributions_ne_zero_asking (h : SameRequests poes imts poes' imts')
    (hpoes : poes'.Nodup) (himts : imts'.Nodup)
    (hp : Prepares (config.asking poes imts) inputs st skipped groups)
    (hp' : Prepares (config.asking poes' imts') inputs st skipped groups') :
    contributions st groups k ≠ 0 ↔ contributions st groups' k ≠ 0 := by
  rw [contributions_asking h hpoes himts hp hp' k]
  constructor
  · intro hk hzero
    rw [hzero, nsmul_zero] at hk
    exact hk rfl
  · intro hk hzero
    have hpos := count_pos_of_contributions h hpoes himts hp' hk
    have hcard := congrArg Multiset.card hzero
    rw [Multiset.card_nsmul, Multiset.card_zero] at hcard
    exact hk (Multiset.card_eq_zero.1 ((Nat.mul_eq_zero.1 hcard).resolve_left hpos.ne'))

/-! ### Outcomes -/

variable [BitPattern α]

theorem exists_ok_asking (h : SameRequests poes imts poes' imts') {x x' : Executor}
    {workers workers' : Nat} {o o' : Except (Error α) (Outcome α)}
    (ho : RunsTo ⟨config.asking poes imts, x, workers⟩ inputs o)
    (ho' : RunsTo ⟨config.asking poes' imts', x', workers'⟩ inputs o')
    (hok : ∃ out, o = .ok out) : ∃ out', o' = .ok out' := by
  obtain ⟨st, skipped, groups, hp, hfeasible⟩ := ho.exists_ok_iff.1 hok
  obtain ⟨groups', hp'⟩ := prepares_asking h hp
  exact ho'.exists_ok_iff.2 ⟨st, skipped, groups', hp', allFeasible_asking h hp hp' hfeasible⟩

/-- A calculation that is asked for something several times is accepted and succeeds exactly if it is
and does with the repeats removed, and it has results for the same keys. But every rupture counts for
a result as often as its threshold and its intensity measure type are asked for. -/
theorem repeats_are_counted {x : Executor} {workers : Nat} {c : Calculation α}
    (hc : withExecutor config x workers = .ok c)
    (h : SameRequests config.request.poes config.request.imts poes imts) (hpoes : poes.Nodup)
    (himts : imts.Nodup) : ∃ c', withExecutor (config.asking poes imts) x workers = .ok c' ∧
      ∀ o o', c.RunsTo inputs o → c'.RunsTo inputs o' →
        ((∃ out, o = .ok out) ↔ ∃ out', o' = .ok out') ∧
        ∀ out out', o = .ok out → o' = .ok out' → ∀ k : ResultKey α,
          (out.results[k]?.isSome ↔ out'.results[k]?.isSome) ∧
          ∀ m m', out.results[k]? = some m → out'.results[k]? = some m' →
            m.layout = m'.layout ∧ ∀ view cell, m.probability? view cell =
              (m'.probability? view cell).map fun p =>
                1 - (1 - p) ^ (config.measures.count k.imt * config.thresholds.count k.poe) := by
  obtain ⟨hvalid, hrequest, rfl⟩ := withExecutor_eq_ok.1 hc
  have hvalid' : (config.asking poes imts).validate = .ok () := (Config.validate_asking h).1 hvalid
  have hrequest' : (config.asking poes imts).validateRequest = .ok () :=
    (Config.validateRequest_asking h).symm.trans hrequest
  refine ⟨_, withExecutor_eq_ok.2 ⟨hvalid', hrequest', rfl⟩, fun o o' ho ho' => ⟨?_, ?_⟩⟩
  · exact ⟨exists_ok_asking h ho ho', exists_ok_asking h.symm ho' ho⟩
  · rintro out out' rfl rfl k
    obtain ⟨st, skipped, groups, hp, -, hgathers, -⟩ := ho.gathers
    obtain ⟨groups', hp'⟩ := prepares_asking h hp
    obtain ⟨_, _, _, hunique, -, hgathers', -⟩ := ho'.gathers
    obtain ⟨rfl, -, rfl⟩ := hp'.unique hunique
    have hcount : contributions st groups k =
        (config.measures.count k.imt * config.thresholds.count k.poe) • contributions st groups' k :=
      contributions_asking h hpoes himts hp hp' k
    have hkeys : contributions st groups k ≠ 0 ↔ contributions st groups' k ≠ 0 :=
      contributions_ne_zero_asking h hpoes himts hp hp'
    refine ⟨?_, fun m m' hm hm' => ?_⟩
    · rw [hgathers.isSome_iff, hgathers'.isSome_iff, hkeys]
    · have hk : contributions st groups k ≠ 0 := (hgathers.isSome_iff k).1 (by rw [hm]; rfl)
      obtain ⟨g, hg, -, hr⟩ := hgathers.present k hk
      obtain ⟨g', hg', -, hr'⟩ := hgathers'.present k (hkeys.1 hk)
      rw [hg] at hg'
      cases hg'
      rw [hm] at hr
      rw [hm'] at hr'
      cases hr
      cases hr'
      rw [hcount]
      refine ⟨?_, st.probability?_gather_nsmul g _ _⟩
      rw [Setting.gather, Setting.gather, Marginals.layout_ofFactors, Marginals.layout_ofFactors]

end

/-! ### A measure asked for once and twice -/

namespace Sample

def once : Config ℚ := config.asking [] ["PGA"]

def twice : Config ℚ := config.asking [] ["PGA", "PGA"]

/-- The first cell of the first view of the result for the key. -/
def firstCell? (o : Except (Error ℚ) (Outcome ℚ)) : Option ℚ :=
  o.toOption.bind fun out => out.results.probability? key 0 [0]

end Sample

open Sample in
/-- What is asked for twice is counted twice, which changes the results. -/
theorem repeats_change_results : (withExecutor once .sequential 1).toBool = true ∧
    (withExecutor twice .sequential 1).toBool = true ∧
    (firstCell? (run ⟨once, .sequential, 1⟩ inputs)).isSome ∧
    firstCell? (run ⟨twice, .sequential, 1⟩ inputs) ≠
      firstCell? (run ⟨once, .sequential, 1⟩ inputs) := by
  decide +kernel

open Sample in
/-- The request for a measure twice, and the one for it once. -/
theorem repeats_are_counted_sample : SameRequests twice.request.poes twice.request.imts [] ["PGA"] ∧
    ∃ c c' out out', withExecutor twice .sequential 1 = .ok c ∧
      withExecutor (twice.asking [] ["PGA"]) .sequential 1 = .ok c' ∧
      c.run inputs = .ok out ∧ c'.run inputs = .ok out' ∧ ∃ m m',
        out.results[key]? = some m ∧ out'.results[key]? = some m' ∧ m.layout = m'.layout ∧
        m.probability? 0 [0] = (m'.probability? 0 [0]).map fun p => 1 - (1 - p) ^ 2 := by
  have hsame : SameRequests twice.request.poes twice.request.imts [] ["PGA"] :=
    ⟨fun _ => Iff.rfl, by simp [twice, Config.asking]⟩
  obtain ⟨c, hc⟩ := Fallible.exists_of_toBool
    (show (withExecutor twice .sequential 1).toBool = true by decide +kernel)
  obtain ⟨out, hout⟩ := Fallible.exists_of_toBool
    (show (run ⟨twice, .sequential, 1⟩ inputs).toBool = true by decide +kernel)
  obtain ⟨c', hc', hruns⟩ := repeats_are_counted hc hsame List.nodup_nil (List.nodup_singleton _)
  obtain ⟨-, -, rfl⟩ := withExecutor_eq_ok.1 hc
  obtain ⟨hok, hresults⟩ := hruns _ _ (runsTo_run _ inputs) (runsTo_run _ inputs)
  obtain ⟨out', hout'⟩ := hok.1 ⟨out, hout⟩
  obtain ⟨hkeys, hcells⟩ := hresults out out' hout hout' key
  have hsome : out.results[key]?.isSome := by
    have hrun : (run ⟨twice, .sequential, 1⟩ inputs).toOption.any fun out =>
        out.results[key]?.isSome := by decide +kernel
    rw [hout] at hrun
    exact hrun
  obtain ⟨m, hm⟩ := Option.isSome_iff_exists.1 hsome
  obtain ⟨m', hm'⟩ := Option.isSome_iff_exists.1 (hkeys.1 hsome)
  obtain ⟨hlayout, hcell⟩ := hcells m m' hm hm'
  exact ⟨hsame, _, c', out, out', hc, hc', hout, hout', m, m', hm, hm', hlayout, hcell 0 [0]⟩

end Calculation

end SeismicHazard
