import Mathlib.Algebra.Order.Field.Rat
import Mathlib.Data.Rat.Floor
import SeismicHazard.Proofs.Calculation.Plan
import SeismicHazard.Proofs.Executor
import SeismicHazard.Proofs.Schedule
import SeismicHazard.Proofs.Task.Blocks
import SeismicHazard.Proofs.Task.Compute

/-!
# Runs of a calculation

The results of a calculation gather what all sources contribute, whatever the tasks are and in
whatever order their results are merged.

* `Calculation.RunsTo`: the outcomes of a calculation, one for every order of the tasks.
* `Calculation.runsTo_run`: `Calculation.run` is one of them.
* `Calculation.runsTo_of_schedule`: so is whatever a schedule of the tasks ends with.
* `Calculation.RunsTo.exists_ok_iff`: whether a calculation succeeds depends on the sources only.
* `Calculation.RunsTo.gathers`: what the results of a calculation hold.
-/

namespace SeismicHazard.Calculation

section

variable {α : Type} [Scalar α] [Elementary α] [TotalOrder α] [BitPattern α] {c : Calculation α}

theorem runPlan_eq_ok {p : Plan α} {out : Outcome α} : c.runPlan p = .ok out ↔
    ∃ done, runInTurn Task.compute Reduction.merge p.tasks ⟨Reduction.empty, none⟩ =
        ⟨done, none⟩ ∧
      out = ⟨done.results, p.setting.grids, p.setting.regions, p.skipped, p.tasks.length⟩ := by
  unfold runPlan
  rw [Executor.execute_eq_runInTurn]
  obtain ⟨done, _ | e⟩ :=
    runInTurn Task.compute Reduction.merge p.tasks ⟨Reduction.empty, none⟩
  · simp [eq_comm]
  · simp

end

section

variable {α : Type} [Field α] [LinearOrder α] [FloorRing α] [Elementary α]

/-- What the work groups contribute together. -/
def contributions (st : Setting α) (groups : List (WorkGroup α)) : Contributions α := fun k =>
  (groups : Multiset (WorkGroup α)).bind fun w =>
    (w.parts st.sites : Multiset (Source α)).bind fun s => w.contributions st s k

/-- Whether the work on all sources in reach of a site succeeds. -/
def AllFeasible (st : Setting α) (groups : List (WorkGroup α)) : Prop :=
  ∀ w ∈ groups, ∀ s ∈ w.parts st.sites, w.Feasible st s

theorem Prepares.sharesEpsilon {config : Config α} {inputs : Inputs α} {st : Setting α}
    {skipped : List Nat} {groups : List (WorkGroup α)}
    (h : Prepares config inputs st skipped groups) : st.SharesEpsilon := by
  intro site g hg
  obtain ⟨_, _, -, _, -, -, -, rfl⟩ := h.grids_eq_some.1 hg
  rw [Setting.epsilonBins, h.epsilonEdges_eq]
  rfl

variable [BitPattern α]

/-- The outcomes that a calculation may have: the results of its tasks are merged in some order. -/
def RunsTo (c : Calculation α) (inputs : Inputs α) (x : Except (Error α) (Outcome α)) : Prop :=
  match c.plan inputs with
  | .error e => x = .error e
  | .ok p => ∃ tasks, tasks.Perm p.tasks ∧ x = c.runPlan { p with tasks := tasks }

/-- The order of the tasks is one of the orders. -/
theorem runsTo_run (c : Calculation α) (inputs : Inputs α) : c.RunsTo inputs (c.run inputs) := by
  unfold RunsTo run
  cases c.plan inputs with
  | error e => rfl
  | ok p => exact ⟨p.tasks, List.Perm.refl _, rfl⟩

/-- What any schedule of the tasks ends with is one of the outcomes. -/
theorem runsTo_of_schedule {c : Calculation α} {inputs : Inputs α} {p : Plan α}
    {policy : Schedule.Policy} {events : List Schedule.Event}
    {q : Schedule.Pool (Reduction α) (Task α) (Error α) (PartialResult α)}
    (hplan : c.plan inputs = .ok p)
    (hrun : Schedule.Pool.run? policy .cancelled Task.compute Reduction.merge
      (.start p.tasks Reduction.empty) events = some q)
    (hcomplete : q.Complete) : c.RunsTo inputs (match q.controller.failure with
      | some e => .error e
      | none => .ok ⟨q.controller.state.results, p.setting.grids, p.setting.regions, p.skipped,
          p.tasks.length⟩) := by
  have hsound := Schedule.Pool.run?_keeps (fun _ _ _ hstep h => Schedule.Pool.Sound.step h hstep) hrun
    (Schedule.Pool.sound_start p.tasks Reduction.empty)
  have hperm := hsound.arrivals_perm hcomplete
  unfold RunsTo
  rw [hplan]
  refine ⟨q.arrivals, hperm, ?_⟩
  unfold runPlan
  rw [Executor.execute_eq_runInTurn, hsound.inTurn, hperm.length_eq]
  rfl

/-! ### One order of the tasks -/

variable {c : Calculation α} {inputs : Inputs α} {st : Setting α} {skipped : List Nat}
  {tasks : List (Task α)}

/-- Tasks whose sources are all feasible succeed in every order, and merging adds up what they
contribute. -/
theorem runInTurn_gathers (hshared : st.SharesEpsilon) (hsetting : ∀ t ∈ tasks, t.setting = st)
    (h : ∀ t ∈ tasks, ∀ s ∈ t.work.sources, t.work.Feasible t.setting s) :
    ∃ done, runInTurn Task.compute Reduction.merge tasks ⟨Reduction.empty, none⟩ = ⟨done, none⟩ ∧
      done.results.Gathers st fun k => (tasks : Multiset (Task α)).bind (·.contributions k) := by
  let gathered (done : List (Task α)) (r : Reduction α) : Prop :=
    r.results.Gathers st fun k => (done : Multiset (Task α)).bind (·.contributions k)
  have hstart : gathered [] Reduction.empty := Results.Gathers.empty st
  have hstep : ∀ done t rest r, done ++ t :: rest = tasks → gathered done r →
      ∃ p r', t.compute = .ok p ∧ Reduction.merge r p = (r', none) ∧ gathered (done ++ [t]) r' := by
    intro done t rest r hdone hr
    have ht : t ∈ tasks := hdone ▸ List.mem_append_right _ List.mem_cons_self
    have hst : t.setting = st := hsetting t ht
    obtain ⟨p, hp, hgathers⟩ := Task.compute_gathers (hst ▸ hshared) (h t ht)
    rw [hst] at hgathers
    obtain ⟨r', hmerge, hr'⟩ := Reduction.merge_gathers hr hgathers
    refine ⟨p, r', hp, hmerge, hr'.congr fun k => ?_⟩
    rw [← Multiset.coe_add, Multiset.add_bind, Pi.add_apply]
    congr 1
    simp
  exact runInTurn_keeps hstart hstep

/-! ### All orders -/

variable {x : Except (Error α) (Outcome α)} {out : Outcome α}

/-- A run that the plan does not stop, as a run of some order of its tasks. -/
theorem RunsTo.of_prepares {groups : List (WorkGroup α)}
    (h : c.RunsTo inputs x) (hprepares : Prepares c.config inputs st skipped groups) :
    ∃ tasks, tasks.Perm (WorkGroup.tasks st (c.config.taskCount c.workers) c.config.pointFactor
      groups) ∧ x = c.runPlan ⟨tasks, st, skipped⟩ := by
  have hplan := plan_eq_ok.2 ⟨st, skipped, groups, hprepares, rfl⟩
  unfold RunsTo at h
  rw [hplan] at h
  exact h

theorem RunsTo.prepares (h : c.RunsTo inputs (.ok out)) :
    ∃ st skipped groups, Prepares c.config inputs st skipped groups := by
  unfold RunsTo at h
  cases hplan : c.plan inputs with
  | error e =>
    rw [hplan] at h
    cases h
  | ok p =>
    obtain ⟨st, skipped, groups, hprepares, -⟩ := plan_eq_ok.1 hplan
    exact ⟨st, skipped, groups, hprepares⟩

/-- A calculation of feasible sources succeeds in every order of its tasks. -/
theorem RunsTo.gathers_of_feasible {groups : List (WorkGroup α)} (h : c.RunsTo inputs x)
    (hprepares : Prepares c.config inputs st skipped groups) (hfeasible : AllFeasible st groups) :
    ∃ out, x = .ok out ∧ out.results.Gathers st (contributions st groups) ∧
      out.grids = st.grids ∧ out.regions = st.regions ∧ out.skipped = skipped := by
  obtain ⟨tasks, hperm, rfl⟩ := h.of_prepares hprepares
  have htasks := (WorkGroup.feasible_tasks_iff (c.config.taskCount c.workers)
    c.config.pointFactor).2 hfeasible
  obtain ⟨done, hdone, hgathers⟩ := runInTurn_gathers hprepares.sharesEpsilon
    (fun t ht => WorkGroup.setting_of_mem_tasks (hperm.mem_iff.1 ht))
    (fun t ht => htasks t (hperm.mem_iff.1 ht))
  refine ⟨_, runPlan_eq_ok.2 ⟨done, hdone, rfl⟩, hgathers.congr fun k => ?_, rfl, rfl, rfl⟩
  rw [Multiset.coe_eq_coe.2 hperm]
  exact WorkGroup.contributions_tasks _ _ k

/-- A calculation succeeds only if all its sources are feasible. -/
theorem RunsTo.feasible {groups : List (WorkGroup α)} (h : c.RunsTo inputs (.ok out))
    (hprepares : Prepares c.config inputs st skipped groups) : AllFeasible st groups := by
  obtain ⟨tasks, hperm, hrun⟩ := h.of_prepares hprepares
  obtain ⟨done, hdone, -⟩ := runPlan_eq_ok.1 hrun.symm
  have hall := exists_of_runInTurn (congrArg Controller.failure hdone)
  refine (WorkGroup.feasible_tasks_iff (c.config.taskCount c.workers)
    c.config.pointFactor).1 fun t ht s hs => ?_
  obtain ⟨p, hp⟩ := hall t (hperm.mem_iff.2 ht)
  have hst := WorkGroup.setting_of_mem_tasks ht
  exact Task.feasible_of_compute (hst ▸ hprepares.sharesEpsilon) hp s hs

/-- A calculation succeeds exactly if something is prepared and all sources are feasible, in whatever
order the results of the tasks are merged. -/
theorem RunsTo.exists_ok_iff (h : c.RunsTo inputs x) : (∃ out, x = .ok out) ↔
    ∃ st skipped groups, Prepares c.config inputs st skipped groups ∧ AllFeasible st groups := by
  constructor
  · rintro ⟨out, rfl⟩
    obtain ⟨st, skipped, groups, hprepares⟩ := h.prepares
    exact ⟨st, skipped, groups, hprepares, h.feasible hprepares⟩
  · rintro ⟨st, skipped, groups, hprepares, hfeasible⟩
    obtain ⟨out, rfl, -⟩ := h.gathers_of_feasible hprepares hfeasible
    exact ⟨out, rfl⟩

/-- What the results of a calculation hold. -/
theorem RunsTo.gathers (h : c.RunsTo inputs (.ok out)) :
    ∃ st skipped groups, Prepares c.config inputs st skipped groups ∧ AllFeasible st groups ∧
      out.results.Gathers st (contributions st groups) ∧
      out.grids = st.grids ∧ out.regions = st.regions ∧ out.skipped = skipped := by
  obtain ⟨st, skipped, groups, hprepares⟩ := h.prepares
  have hfeasible := h.feasible hprepares
  obtain ⟨out', hout, hgathers⟩ := h.gathers_of_feasible hprepares hfeasible
  cases hout
  exact ⟨st, skipped, groups, hprepares, hfeasible, hgathers⟩

end

/-! ### A small calculation -/

namespace Sample

/-- Rational stand-ins for the functions beyond arithmetic. Distances are in degrees, the shorter way
around. -/
scoped instance : Elementary ℚ where
  exp x := 1 / (1 - x)
  ln x := x
  powTen x := 1 + x
  sqrt x := x
  normalCdf _ := 1 / 2
  distance a b c d := abs (180 - abs (180 - abs (a - c))) + abs (b - d)

/-- Fingerprints that cannot tell numbers apart. -/
scoped instance : BitPattern ℚ where
  toBits _ := 0
  ofBits _ := 0

/-- Numbers are written as their numerators. -/
scoped instance : DecimalText ℚ where
  numeral _ x := .finite ⟨decide (x < 0), x.num.natAbs, 0⟩
  read
    | .finite d => if d.negative then -(d.digits : ℚ) else d.digits
    | _ => 0

/-- One level is asked for, everything else is left at its default. -/
def config : Config ℚ :=
  { Config.empty with
    request := ⟨none, none, none, [], Std.TreeMap.ofList [("PGA", (1 / 10 : ℚ))], []⟩ }

def recurrence : Recurrence ℚ := .binned 5 1 [1 / 100, 1 / 1000]

/-- A point and an area on both sides of the antimeridian, with a site between them. -/
def inputs : Inputs ℚ where
  sites := ⟨[⟨0, .surface 179 0, 100⟩]⟩
  models := [⟨0, "model", [⟨0, "A", [.point ⟨"point", "A", ⟨178, 1, 10⟩, recurrence⟩,
    .area ⟨"area", "A", ⟨179, 0, 10⟩, [⟨-179, 1, 10⟩], recurrence⟩]⟩]⟩]
  tree := ⟨[⟨0, 0, 1, Std.TreeMap.ofList [("A", "G")]⟩]⟩
  library := .ofList [⟨"G", fun _ q => .ok (List.replicate (q.epsilonEdges.length - 1) (1 / 2))⟩]
  curves := ⟨∅⟩

def calculation : Calculation ℚ := ⟨config, .sequential, 1⟩

def grid : Grid ℚ := ⟨[5, 8], [0, 100], [170, 190], [-5, 5], [-1, 0, 1]⟩

/-- The point again, at two sites of which one has no levels. The first two targets have the model, the
measure and the level in common, the last one has no level. -/
def task : Task ℚ where
  number := 0
  work :=
    { sourceModel := 0
      group := 0
      sources := [.point ⟨"point", "A", ⟨178, 1, 10⟩, recurrence⟩]
      models := ⟨"A", inputs.library⟩
      targets := [⟨none, "G", "PGA", 0⟩, ⟨none, "G", "PGA", 1⟩, ⟨none, "G", "SA", 0⟩]
      levels := Std.TreeMap.ofList [(0, [some (1 / 10 : ℚ), some (1 / 10), none])] }
  setting :=
    { sites := ⟨[⟨0, .surface 179 0, 100⟩, ⟨1, .surface 178 0, 100⟩]⟩
      regions := ["A"]
      grids := Std.TreeMap.ofList [(0, grid), (1, grid)]
      truncation := 1
      time := 50
      epsilonEdges := [-1, 0, 1]
      fixedLevels := true
      marginals := [.mag] }

def key : ResultKey ℚ := ⟨0, 0, none, "PGA", 1 / 10, ["A"]⟩

theorem withExecutor_config : withExecutor config .sequential 1 = .ok calculation := by
  apply withExecutor_of_toBool
  decide +kernel

/-- The calculation succeeds and has a result. -/
theorem exists_result : ∃ out m, calculation.run inputs = .ok out ∧ out.results[key]? = some m := by
  have hrun : (calculation.run inputs).toOption.any fun out => out.results[key]?.isSome := by
    decide +kernel
  obtain ⟨out, hout, hsome⟩ := (Option.any_eq_true _ _).1 hrun
  obtain ⟨m, hm⟩ := Option.isSome_iff_exists.1 hsome
  exact ⟨out, m, Fallible.toOption_eq_some.1 hout, hm⟩

end Sample

end SeismicHazard.Calculation
