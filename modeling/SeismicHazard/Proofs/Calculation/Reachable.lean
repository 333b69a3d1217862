import SeismicHazard.Proofs.Calculation.Run
import SeismicHazard.Proofs.Config.Validation
import SeismicHazard.Proofs.Curve.Table

/-!
# Thresholds within reach

The combinations of source model, realization, threshold and intensity measure type are looked at one
after the other, up to the first one for which no curve has a probability as great as the threshold.

* `LogicTree.combinations`: the combinations, in the order in which they are looked at.
* `Combination.Reached`: some curve has a probability as great as the threshold.
* `LogicTree.checkReachable_eq_ok`, `LogicTree.checkReachable_eq_error`: the outcomes of the check.
* `Calculation.checkReachable_spec`: when the check passes, what it reports, and what a plan knows.
-/

namespace SeismicHazard

/-- What a threshold has to be in reach of. -/
structure Combination (α : Type) where
  model : SourceModel α
  realization : Realization α
  poe : α
  imt : String

namespace LogicTree

section

variable {α : Type} {t : LogicTree α} {models : List (SourceModel α)} {imts : List String}
  {poes : List α}

/-- All combinations, by source model, realization, threshold and intensity measure type. -/
def combinations (t : LogicTree α) (models : List (SourceModel α)) (imts : List String)
    (poes : List α) : List (Combination α) :=
  models.flatMap fun m => (t.ofModel m.ordinal).flatMap fun r =>
    poes.flatMap fun poe => imts.map fun imt => ⟨m, r, poe, imt⟩

theorem mem_combinations {q : Combination α} : q ∈ t.combinations models imts poes ↔
    q.model ∈ models ∧ q.realization ∈ t.ofModel q.model.ordinal ∧ q.poe ∈ poes ∧ q.imt ∈ imts := by
  simp only [combinations, List.mem_flatMap, List.mem_map]
  constructor
  · rintro ⟨m, hm, r, hr, poe, hpoe, imt, himt, rfl⟩
    exact ⟨hm, hr, hpoe, himt⟩
  · rintro ⟨hm, hr, hpoe, himt⟩
    exact ⟨_, hm, _, hr, _, hpoe, _, himt, rfl⟩

theorem findSome?_flatMap {β γ δ : Type} (xs : List β) (f : β → List γ) (g : γ → Option δ) :
    (xs.flatMap f).findSome? g = xs.findSome? fun x => (f x).findSome? g := by
  induction xs with
  | nil => rfl
  | cons x xs ih =>
    rw [List.flatMap_cons, List.findSome?_append, ih, List.findSome?_cons]
    cases (f x).findSome? g <;> rfl

variable [Scalar α] {curves : CurveTable α} {e : Error α}

/-- The nested search is a search among all combinations. -/
theorem firstUnreachable_eq : t.firstUnreachable models curves imts poes =
    (t.combinations models imts poes).findSome? fun q =>
      unreachable? curves q.model q.realization q.poe q.imt := by
  simp only [firstUnreachable, combinations, findSome?_flatMap, List.findSome?_map]
  rfl

theorem checkReachable_eq_ok : t.checkReachable models curves imts poes = .ok () ↔
    ∀ m ∈ models, ∀ r ∈ t.ofModel m.ordinal, ∀ poe ∈ poes, ∀ imt ∈ imts,
      unreachable? curves m r poe imt = none := by
  have hcheck : t.checkReachable models curves imts poes = .ok () ↔
      t.firstUnreachable models curves imts poes = none := by
    unfold checkReachable
    cases t.firstUnreachable models curves imts poes <;> simp
  rw [hcheck]
  simp only [firstUnreachable, List.findSome?_eq_none_iff]

theorem checkReachable_eq_error : t.checkReachable models curves imts poes = .error e ↔
    ∃ before q after, t.combinations models imts poes = before ++ q :: after ∧
      unreachable? curves q.model q.realization q.poe q.imt = some e ∧
      ∀ q' ∈ before, unreachable? curves q'.model q'.realization q'.poe q'.imt = none := by
  rw [← List.findSome?_eq_some_iff, ← firstUnreachable_eq]
  unfold checkReachable
  cases t.firstUnreachable models curves imts poes <;> simp

end

end LogicTree

/-! ### Reached thresholds -/

section

variable {α : Type} [Field α] [LinearOrder α] [FloorRing α] {curves : CurveTable α}

/-- Whether some curve has a probability as great as the threshold. -/
def Combination.Reached (q : Combination α) (curves : CurveTable α) : Prop :=
  ∃ p, curves.Gives q.realization.ordinal q.imt p ∧ q.poe ≤ p

namespace LogicTree

variable {t : LogicTree α} {models : List (SourceModel α)} {imts : List String} {poes : List α}
  {q : Combination α} {e : Error α}

/-- A threshold other than zero is in reach if some curve reaches it. -/
theorem unreachable?_eq_none (hpoe : 0 < q.poe) :
    unreachable? curves q.model q.realization q.poe q.imt = none ↔ q.Reached curves := by
  rw [Combination.Reached, ← CurveTable.le_maxPoe_iff hpoe, ← not_lt]
  simp [unreachable?]

theorem unreachable?_eq_some (hpoe : 0 < q.poe) :
    unreachable? curves q.model q.realization q.poe q.imt = some e ↔ ¬ q.Reached curves ∧
      ∃ max, curves.IsMaxPoe q.realization.ordinal q.imt max ∧
        e = .unreachable q.model.ordinal q.model.name q.poe q.realization.ordinal q.imt max := by
  rw [Combination.Reached, ← CurveTable.le_maxPoe_iff hpoe, not_le, unreachable?,
    Option.ite_none_right_eq_some, Option.some.injEq]
  refine and_congr_right fun _ => ⟨?_, ?_⟩
  · rintro rfl
    exact ⟨_, curves.isMaxPoe_maxPoe _ _, rfl⟩
  · rintro ⟨max, hmax, rfl⟩
    rw [hmax.unique (curves.isMaxPoe_maxPoe _ _)]

variable (hpoes : ∀ poe ∈ poes, 0 < poe)

include hpoes

theorem poe_pos_of_mem (hq : q ∈ t.combinations models imts poes) : 0 < q.poe :=
  hpoes _ (mem_combinations.1 hq).2.2.1

theorem checkReachable_eq_ok_iff : t.checkReachable models curves imts poes = .ok () ↔
    ∀ m ∈ models, ∀ r ∈ t.ofModel m.ordinal, ∀ poe ∈ poes, ∀ imt ∈ imts,
      ∃ p, curves.Gives r.ordinal imt p ∧ poe ≤ p := by
  rw [checkReachable_eq_ok]
  refine forall₄_congr fun m _ r _ => forall₄_congr fun poe hpoe imt _ => ?_
  exact unreachable?_eq_none (q := ⟨m, r, poe, imt⟩) (hpoes poe hpoe)

/-- The first combination that is not reached is reported. -/
theorem checkReachable_eq_error_iff : t.checkReachable models curves imts poes = .error e ↔
    ∃ before q after max, t.combinations models imts poes = before ++ q :: after ∧
      (∀ q' ∈ before, q'.Reached curves) ∧ ¬ q.Reached curves ∧
      curves.IsMaxPoe q.realization.ordinal q.imt max ∧
      e = .unreachable q.model.ordinal q.model.name q.poe q.realization.ordinal q.imt max := by
  have hpos : ∀ {q : Combination α}, q ∈ t.combinations models imts poes → 0 < q.poe :=
    poe_pos_of_mem hpoes
  rw [checkReachable_eq_error]
  constructor
  · rintro ⟨before, q, after, hall, hq, hbefore⟩
    rw [hall] at hpos
    obtain ⟨hapart, max, hmax, rfl⟩ := (unreachable?_eq_some (hpos (by simp))).1 hq
    exact ⟨before, q, after, max, hall, fun q' hq' =>
      (unreachable?_eq_none (hpos (List.mem_append_left _ hq'))).1 (hbefore q' hq'), hapart, hmax,
      rfl⟩
  · rintro ⟨before, q, after, max, hall, hbefore, hapart, hmax, rfl⟩
    rw [hall] at hpos
    exact ⟨before, q, after, hall, (unreachable?_eq_some (hpos (by simp))).2 ⟨hapart, max, hmax, rfl⟩,
      fun q' hq' => (unreachable?_eq_none (hpos (List.mem_append_left _ hq'))).2 (hbefore q' hq')⟩

end LogicTree

theorem Curve.isZero_eq_false {c : Curve α} {p : α} (hp : p ∈ c.poes) (hne : p ≠ 0) :
    c.isZero = false := by
  rw [isZero, List.all_eq_false]
  exact ⟨p, hp, by simpa using hne⟩

namespace Calculation

variable [Elementary α]

/-- A calculation that has a plan has a curve with a probability other than zero for every
combination. -/
theorem exists_curve_of_plan {config : Config α} {x : Executor} {workers : ℕ} {c : Calculation α}
    {inputs : Inputs α} {plan : Plan α} (hc : withExecutor config x workers = .ok c)
    (hplan : c.plan inputs = .ok plan) {m : SourceModel α} (hm : m ∈ inputs.models)
    {r : Realization α} (hr : r ∈ inputs.tree.ofModel m.ordinal) {poe : α}
    (hpoe : poe ∈ config.request.poes) {imt : String} (himt : imt ∈ config.measures) :
    ∃ site set curve, inputs.curves.get? site r.ordinal = some set ∧
      set.get? imt = some curve ∧ curve.isZero = false := by
  obtain ⟨hvalid, -, rfl⟩ := withExecutor_eq_ok.1 hc
  obtain ⟨_, _, _, hprepares, -⟩ := plan_eq_ok.1 hplan
  have hpos : ∀ poe ∈ config.request.poes, 0 < poe := fun _ hpoe =>
    (Config.pos_and_le_one_of_mem hvalid hpoe).1
  obtain ⟨p, ⟨site, set, curve, hset, hcurve, hp⟩, hle⟩ :=
    (LogicTree.checkReachable_eq_ok_iff hpos).1 hprepares.reachable m hm r hr poe hpoe imt himt
  have hne : p ≠ 0 := ((hpos poe hpoe).trans_le hle).ne'
  exact ⟨site, set, curve, hset, hcurve, Curve.isZero_eq_false hp hne⟩

/-- The check of the thresholds. It passes if every combination of source model, realization, threshold
and intensity measure type is reached, and else reports the first one that is not, with the greatest
probability of its curves. The order in which the curves are visited plays no part. A calculation that
has a plan has a curve with a probability other than zero for every combination. -/
theorem checkReachable_spec (t : LogicTree α) (models : List (SourceModel α))
    (curves : CurveTable α) (imts : List String) (poes : List α) (hpoes : ∀ poe ∈ poes, 0 < poe) :
    (t.checkReachable models curves imts poes = .ok () ↔
      ∀ m ∈ models, ∀ r ∈ t.ofModel m.ordinal, ∀ poe ∈ poes, ∀ imt ∈ imts,
        ∃ p, curves.Gives r.ordinal imt p ∧ poe ≤ p) ∧
    (∀ e, t.checkReachable models curves imts poes = .error e ↔
      ∃ before q after max, t.combinations models imts poes = before ++ q :: after ∧
        (∀ q' ∈ before, q'.Reached curves) ∧ ¬ q.Reached curves ∧
        curves.IsMaxPoe q.realization.ordinal q.imt max ∧
        e = .unreachable q.model.ordinal q.model.name q.poe q.realization.ordinal q.imt max) ∧
    (∀ visited, visited.Perm curves.byPlace.toList → ∀ realization imt,
      CurveTable.maxAlong visited realization imt = curves.maxPoe realization imt) ∧
    ∀ (config : Config α) (x : Executor) (workers : ℕ) (c : Calculation α) (inputs : Inputs α)
      (plan : Plan α), withExecutor config x workers = .ok c → c.plan inputs = .ok plan →
      ∀ m ∈ inputs.models, ∀ r ∈ inputs.tree.ofModel m.ordinal, ∀ poe ∈ config.request.poes,
        ∀ imt ∈ config.measures, ∃ site set curve, inputs.curves.get? site r.ordinal = some set ∧
          set.get? imt = some curve ∧ curve.isZero = false :=
  ⟨LogicTree.checkReachable_eq_ok_iff hpoes,
    fun _ => LogicTree.checkReachable_eq_error_iff hpoes,
    fun _ hvisited _ _ => CurveTable.maxAlong_eq hvisited,
    fun _ _ _ _ _ _ hc hplan _ hm _ hr _ hpoe _ himt =>
      exists_curve_of_plan hc hplan hm hr hpoe himt⟩

end Calculation

end

/-! ### A sample -/

namespace Calculation

namespace ReachSample

open Std (TreeMap)

def curve : Curve ℚ := ⟨[1 / 10, 3 / 10], [1 / 2, 0]⟩

def zeroCurve : Curve ℚ := ⟨[1 / 10], [0]⟩

/-- The small calculation with hazard curves at two sites, one of them zero. -/
def inputs : Inputs ℚ :=
  { Sample.inputs with
    curves := (CurveTable.empty.insert 0 0 ⟨TreeMap.ofList [("PGA", curve)]⟩).insert 1 0
      ⟨TreeMap.ofList [("PGA", zeroCurve)]⟩ }

def settings : Config ℚ :=
  { Sample.config with request := ⟨none, none, none, [1 / 2, 1 / 5], ∅, ["PGA"]⟩ }

def calculation : Calculation ℚ := ⟨settings, .sequential, 1⟩

end ReachSample

open scoped Sample in
open ReachSample in
/-- Two thresholds are reached, the first one exactly. A measure without a curve is reported. -/
theorem checkReachable_spec_sample :
    (∀ poe ∈ settings.request.poes, 0 < poe) ∧
    inputs.tree.checkReachable inputs.models inputs.curves ["PGA"] settings.request.poes = .ok () ∧
    (∃ max, inputs.curves.IsMaxPoe 0 "SA" max ∧
      inputs.tree.checkReachable inputs.models inputs.curves ["PGA", "SA"] settings.request.poes =
        .error (.unreachable 0 "model" (1 / 2) 0 "SA" max)) ∧
    (∃ plan, calculation.plan inputs = .ok plan) ∧
    ∃ site set curve, inputs.curves.get? site 0 = some set ∧ set.get? "PGA" = some curve ∧
      curve.isZero = false := by
  have hpos : ∀ poe ∈ settings.request.poes, 0 < poe := by decide +kernel
  obtain ⟨hok, -, -, -⟩ :=
    checkReachable_spec inputs.tree inputs.models inputs.curves ["PGA"] settings.request.poes hpos
  obtain ⟨-, herror, -, hcurve⟩ :=
    checkReachable_spec inputs.tree inputs.models inputs.curves ["PGA", "SA"] settings.request.poes hpos
  have hwithin : ∀ poe ∈ settings.request.poes, poe ≤ inputs.curves.maxPoe 0 "PGA" := by
    decide +kernel
  have hreached : ∀ poe ∈ settings.request.poes,
      ∃ p, inputs.curves.Gives 0 "PGA" p ∧ poe ≤ p := fun poe hpoe =>
    (CurveTable.le_maxPoe_iff (hpos poe hpoe)).1 (hwithin poe hpoe)
  have hapart : ¬ ∃ p, inputs.curves.Gives 0 "SA" p ∧ 1 / 2 ≤ p := by
    rw [← CurveTable.le_maxPoe_iff (by norm_num)]
    decide +kernel
  obtain ⟨plan, hplan⟩ : ∃ plan, calculation.plan inputs = .ok plan :=
    Fallible.exists_of_toBool (by decide +kernel)
  refine ⟨hpos, hok.2 fun m hm r hr poe hpoe imt himt => ?_, ⟨_, inputs.curves.isMaxPoe_maxPoe _ _,
    (herror _).2 ⟨[_], _, _, _, rfl, ?_, hapart, inputs.curves.isMaxPoe_maxPoe _ _, rfl⟩⟩,
    ⟨plan, hplan⟩, ?_⟩
  · obtain rfl := List.mem_singleton.1 hm
    obtain rfl := List.mem_singleton.1 hr
    obtain rfl := List.mem_singleton.1 himt
    exact hreached poe hpoe
  · exact List.forall_mem_singleton.2 (hreached _ List.mem_cons_self)
  · exact hcurve settings .sequential 1 calculation inputs plan
      (withExecutor_of_toBool (by decide +kernel)) hplan _ List.mem_cons_self _ List.mem_cons_self _
      List.mem_cons_self _ List.mem_cons_self

end Calculation

end SeismicHazard
