import SeismicHazard.Config.Basic
import SeismicHazard.Config.Error

/-!
# Rules for configurations

* `Config.validate`: every setting that is made has an allowed value. A part of a configuration is
  checked by these rules alone.
* `Config.validateRequest`: something is asked for.
-/

namespace SeismicHazard

namespace Config

section

variable {α : Type} [Scalar α]

/-- The settings that must be positive, with their values. -/
def positiveSettings (c : Config α) : List (String × Option α) :=
  [("binning.mag_bin_width", c.binning.magWidth),
    ("binning.distance_bin_width", c.binning.distanceWidth),
    ("binning.coordinate_bin_width", c.binning.coordinateWidth),
    ("calculation.truncation_level", c.request.truncation),
    ("calculation.maximum_distance", c.request.maxDistance),
    ("calculation.investigation_time", c.request.time),
    ("execution.sanity_tolerance", c.execution.tolerance)]

def positiveViolation? (c : Config α) : Option Violation :=
  c.positiveSettings.findSome? fun (setting, value) =>
    match value with
    | some x => if Scalar.isPositive x then none else some (.notPositive setting)
    | none => none

def countViolation? (c : Config α) : Option Violation :=
  if c.binning.epsilonBins = some 0 then some (.zeroCount "binning.num_epsilon_bins")
  else if c.execution.taskCount = some 0 then some (.zeroCount "execution.concurrent_tasks")
  else none

def weightViolation? (c : Config α) : Option Violation :=
  match c.execution.pointFactor with
  | some w => if Scalar.isFinite w ∧ 0 ≤ w then none else some .negativeWeight
  | none => none

def thresholdViolation? (c : Config α) : Option Violation :=
  if c.request.poes.all fun p => decide (0 < p) && decide (p ≤ 1) then none
  else some .thresholdOutOfRange

/-- What is wrong with a level: its value, or that its measure is not asked for. -/
def levelViolation? (imts : List String) (imt : String) (level : α) : Option Violation :=
  if !Scalar.isPositive level then some (.levelNotPositive imt)
  else if imts ≠ [] ∧ imt ∉ imts then some (.levelNotRequested imt)
  else none

/-- The first level that is wrong, or the first measure without a level where levels are given. -/
def levelsViolation? (c : Config α) : Option Violation :=
  (c.request.levels.toList.findSome? fun (imt, level) =>
    levelViolation? c.request.imts imt level).or <|
  if c.hasLevels then
    (c.request.imts.find? fun imt => !c.request.levels.contains imt).map .levelMissing
  else none

def viewViolation? (c : Config α) : Option Violation :=
  (c.execution.views.find? fun name => (Marginal.ofName? name).isNone).map .unknownView

/-- The first rule that the configuration breaks. -/
def violation? (c : Config α) : Option Violation :=
  c.positiveViolation?.or <| c.countViolation?.or <| c.weightViolation?.or <|
    c.thresholdViolation?.or <| c.levelsViolation?.or c.viewViolation?

def validate (c : Config α) : Except ConfigError Unit :=
  match c.violation? with
  | some v => .error (.invalid v)
  | none => .ok ()

/-- Succeeds if thresholds or levels and an intensity measure type are asked for. -/
def validateRequest (c : Config α) : Except ConfigError Unit :=
  if c.request.poes = [] ∧ !c.hasLevels then .error (.invalid .nothingRequested)
  else if c.measures = [] then .error (.invalid .noMeasure)
  else .ok ()

end

end Config

end SeismicHazard
