import SeismicHazard.Config.Layers

/-!
# The settings of a configuration, one by one

What `Config.merge`, `Environment.config` and `Overrides.apply` do to all settings at once can be told
of each of them alone: a layer makes the setting or does not, and the highest layer that makes it
decides.

* `ConfigField`: the settings.
* `Config.value?`: the value of a setting, if it is made. An empty list does not make a setting.
* `ConfigField.setBy?`: the environment variable of a setting, with the values it can have.
* `Overrides.decision?`: what explicit settings decide.
* `Config.decided?`: the value by the highest layer that makes the setting.
* `ConfigFile.Makes`: the settings that a file makes.
-/

namespace SeismicHazard

open Std (TreeMap)

inductive ConfigField where
  | magWidth
  | distanceWidth
  | coordinateWidth
  | epsilonBins
  | truncation
  | maxDistance
  | time
  | poes
  | levels
  | imts
  | mode
  | threads
  | taskCount
  | pointFactor
  | views
  | tolerance
  | strict
deriving DecidableEq

/-- The value of a setting. -/
inductive ConfigValue (α : Type) where
  | number (x : α)
  | count (n : Nat)
  | flag (b : Bool)
  | mode (m : ExecutionMode)
  | numbers (xs : List α)
  | names (xs : List String)
  | levels (levels : TreeMap String α)

section

variable {α : Type}

/-- A list that is not empty. -/
def nonempty? {β : Type} : List β → Option (List β)
  | [] => none
  | xs => some xs

/-- The value of a setting, if it is made. Lists and levels are made if they are not empty. -/
def Config.value? (c : Config α) : ConfigField → Option (ConfigValue α)
  | .magWidth => c.binning.magWidth.map .number
  | .distanceWidth => c.binning.distanceWidth.map .number
  | .coordinateWidth => c.binning.coordinateWidth.map .number
  | .epsilonBins => c.binning.epsilonBins.map .count
  | .truncation => c.request.truncation.map .number
  | .maxDistance => c.request.maxDistance.map .number
  | .time => c.request.time.map .number
  | .poes => (nonempty? c.request.poes).map .numbers
  | .levels => if c.request.levels.isEmpty then none else some (.levels c.request.levels)
  | .imts => (nonempty? c.request.imts).map .names
  | .mode => c.execution.mode.map .mode
  | .threads => c.execution.threads.map .count
  | .taskCount => c.execution.taskCount.map .count
  | .pointFactor => c.execution.pointFactor.map .number
  | .views => (nonempty? c.execution.views).map .names
  | .tolerance => c.execution.tolerance.map .number
  | .strict => c.execution.strict.map .flag

/-- What an override decides, where it is given: the setting's value, or that it is not made. -/
def Overrides.decision? (o : Overrides α) : ConfigField → Option (Option (ConfigValue α))
  | .mode => o.mode.map fun m => some (.mode m)
  | .threads => o.threads.map fun n => some (.count n)
  | .taskCount => o.taskCount.map fun n => some (.count n)
  | .poes => o.poes.map fun ps => (nonempty? ps).map .numbers
  | _ => .none

variable [DecimalText α]

namespace ConfigField

def number? (s : String) : Option (ConfigValue α) := (Environment.real? s).map .number

def count? (s : String) : Option (ConfigValue α) := (Environment.nat? s).map .count

def mode? (s : String) : Option (ConfigValue α) := (ExecutionMode.ofText? s).map .mode

def flag? (s : String) : Option (ConfigValue α) := (Environment.bool? s).map .flag

/-- The environment variable of a setting and how its text is read, if it has one. -/
def setBy? : ConfigField → Option (String × (String → Option (ConfigValue α)))
  | magWidth => some ("DISAGG_BINNING_MAG_BIN_WIDTH", number?)
  | distanceWidth => some ("DISAGG_BINNING_DISTANCE_BIN_WIDTH", number?)
  | coordinateWidth => some ("DISAGG_BINNING_COORDINATE_BIN_WIDTH", number?)
  | epsilonBins => some ("DISAGG_BINNING_NUM_EPSILON_BINS", count?)
  | truncation => some ("DISAGG_CALCULATION_TRUNCATION_LEVEL", number?)
  | maxDistance => some ("DISAGG_CALCULATION_MAXIMUM_DISTANCE", number?)
  | mode => some ("DISAGG_EXECUTION_MODE", mode?)
  | threads => some ("DISAGG_EXECUTION_THREADS", count?)
  | taskCount => some ("DISAGG_EXECUTION_CONCURRENT_TASKS", count?)
  | strict => some ("DISAGG_EXECUTION_STRICT_SANITY_CHECK", flag?)
  | _ => none

end ConfigField

/-- The value of a setting by its environment variable, if that is set to a text that can be read. -/
def Environment.value? (env : Environment) (f : ConfigField) : Option (ConfigValue α) :=
  f.setBy?.bind fun (name, read) => env.get? name read

/-- The value of a setting by the highest layer that makes it: explicit settings, environment
variables, then the files, of which the higher one comes first. -/
def Config.decided? (overrides : Overrides α) (env : Environment) (files : List (Config α))
    (f : ConfigField) : Option (ConfigValue α) :=
  (overrides.decision? f).getD ((env.value? f).or (files.findSome? (·.value? f)))

/-- A file makes the settings of its text; one that is absent makes none. -/
inductive ConfigFile.Makes [Scalar α] (file : ConfigFile) : Config α → Prop where
  | absent : file.content = .absent → file.Makes .empty
  | text {s : String} {c : Config α} : file.content = .text s → Config.read? s = some c → file.Makes c

end

end SeismicHazard
