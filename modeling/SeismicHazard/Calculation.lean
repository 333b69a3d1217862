import SeismicHazard.Config.Document
import SeismicHazard.Executor
import SeismicHazard.LogicTree.Reachable
import SeismicHazard.Record
import SeismicHazard.Task.Computation

/-!
# Whole calculations

* `Inputs`: everything that a calculation reads.
* `Calculation.make`: a configuration that can be carried out, with an executor.
* `Calculation.plan`: the tasks of a calculation.
* `Calculation.run`: the results of a calculation.
* `Calculation.runAndSave`: the results, with their records handed to a sink.
-/

namespace SeismicHazard

/-- Everything that a calculation reads. -/
structure Inputs (α : Type) where
  sites : Sites α
  models : List (SourceModel α)
  tree : LogicTree α
  library : ModelLibrary α
  curves : CurveTable α

/-- The tasks of a calculation, what they share, and the sites that no rupture counts for. -/
structure Plan (α : Type) where
  tasks : List (Task α)
  setting : Setting α
  skipped : List Nat

/-- The results of a calculation and what is needed to read them. -/
structure Outcome (α : Type) [TotalOrder α] where
  results : Results α
  grids : GridTable α
  regions : List String
  skipped : List Nat
  numTasks : Nat

/-- A configuration and the executor that carries it out. -/
structure Calculation (α : Type) where
  config : Config α
  executor : Executor
  /-- The number of threads where none is asked for. -/
  workers : Nat

namespace Calculation

section

variable {α : Type} [Scalar α]

def executorFor (mode : ExecutionMode) (threads : Option Nat) (workers : Nat) : Executor :=
  match mode with
  | .sequential => .sequential
  | .parallel => .parallel ((threads.filter (0 < ·)).getD workers)

/-- A calculation with a given executor. The configuration must be allowed and ask for something. -/
def withExecutor (config : Config α) (executor : Executor) (workers : Nat) :
    Except (Error α) (Calculation α) := do
  config.validate.mapError .config
  config.validateRequest.mapError .config
  return ⟨config, executor, workers⟩

def make (config : Config α) (workers : Nat) : Except (Error α) (Calculation α) :=
  withExecutor config (executorFor config.mode config.execution.threads workers) workers

/-- A site whose integration distance is at most `bound`. -/
def capped (bound : α) (s : Site α) : Site α :=
  { s with maxDistance := Scalar.min s.maxDistance bound }

variable [Elementary α] [TotalOrder α]

def gridsOf (config : Config α) (models : List (SourceModel α)) (sites : Sites α)
    (magnitude epsilon : List α) : GridTable α :=
  GridTable.ofExtents magnitude epsilon ⟨config.distanceWidth, config.coordinateWidth⟩
    (sites.toList.map fun s => (s.id, Extent.ofSite models s))

/-- The work on a group of sources, if a realization belongs to its source model. -/
def workGroup (config : Config α) (inputs : Inputs α) (sites : Sites α) (m : SourceModel α)
    (g : SourceGroup α) : Except (Error α) (Option (WorkGroup α)) := do
  let byModel ← inputs.tree.byGroundMotion g.region m.ordinal
  if byModel.isEmpty then return none
  let models ← RegionModels.make g.region byModel.keys inputs.library
  let targets := Target.all byModel config.measures config.thresholds
  let levels := Target.levels config.request.levels inputs.curves sites targets
  return some ⟨m.ordinal, g.id, g.sources, models, targets, levels⟩

def workGroups (config : Config α) (inputs : Inputs α) (sites : Sites α) :
    Except (Error α) (List (WorkGroup α)) := do
  let groups ← inputs.models.mapM fun m => m.groups.mapM (workGroup config inputs sites m)
  return groups.flatten.filterMap id

/-- What the tasks share, and the sites that no rupture counts for. -/
def settingOf (config : Config α) (inputs : Inputs α) (magnitudes : Span α) :
    Except (Error α) (Setting α × List Nat) := do
  let epsilon := epsilonEdges config.truncation config.epsilonBins
  let sites ← Sites.ofList (inputs.sites.toList.map (capped config.maxDistance))
  let grids := gridsOf config inputs.models sites
    (snappedEdges magnitudes.lo magnitudes.hi config.magWidth) epsilon
  let setting :=
    { sites := sites.filter fun s => grids.contains s.id
      regions := SourceModel.regions inputs.models
      grids := grids
      truncation := config.truncation
      time := config.time
      epsilonEdges := epsilon
      fixedLevels := config.hasLevels
      marginals := config.marginals }
  return (setting, sites.ids.filter fun id => !grids.contains id)

/-- The tasks of a calculation. There is none if a threshold is out of reach. -/
def plan (c : Calculation α) (inputs : Inputs α) : Except (Error α) (Plan α) := do
  inputs.tree.checkReachable inputs.models inputs.curves c.config.measures c.config.request.poes
  match SourceModel.magnitudes inputs.models with
  | none => .error (.input .noSources)
  | some magnitudes => do
    let (setting, skipped) ← settingOf c.config inputs magnitudes
    let groups ← workGroups c.config inputs setting.sites
    let tasks := WorkGroup.tasks setting (c.config.taskCount c.workers) c.config.pointFactor groups
    return ⟨tasks, setting, skipped⟩

variable [BitPattern α]

def runPlan (c : Calculation α) (p : Plan α) : Except (Error α) (Outcome α) :=
  let done := c.executor.execute .cancelled Task.compute Reduction.merge p.tasks Reduction.empty
  match done.failure with
  | some e => .error e
  | none =>
    .ok ⟨done.state.results, p.setting.grids, p.setting.regions, p.skipped, p.tasks.length⟩

def run (c : Calculation α) (inputs : Inputs α) : Except (Error α) (Outcome α) := do
  c.runPlan (← c.plan inputs)

/-- The results of a calculation, with their records handed to a sink. -/
def runAndSave [DecimalText α] {σ : Type} (c : Calculation α) (inputs : Inputs α)
    (save : σ → Record α → Except (Error α) σ) (s : σ) : Except (Error α) (Outcome α × σ) := do
  let outcome ← c.run inputs
  let context :=
    ⟨inputs.sites, outcome.grids, c.config.time, c.config.tolerance, c.config.strict⟩
  let saving := saveResults context save outcome.results s
  match saving.failure with
  | some e => throw e
  | none => return (outcome, saving.sink)

end

end Calculation

end SeismicHazard
