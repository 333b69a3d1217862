import SeismicHazard.Config.Document

/-!
# Layers of configurations

A configuration is made up from several layers. A setting of a higher layer hides the setting of a
lower one: explicit overrides come first, then environment variables, then the file of the project,
then that of the user.

* `Config.merge`: a layer over another one.
* `Environment`: the settings of environment variables.
* `Overrides`: explicit settings.
* `Config.load`: all layers together, checked.
-/

namespace SeismicHazard

namespace Config

section

variable {α : Type}

/-- The list of the higher layer, unless it is empty. -/
def mergeList {β : Type} (lower higher : List β) : List β :=
  match higher with
  | [] => lower
  | xs => xs

/-- The settings of `higher` over those of `lower`. Lists and levels are replaced as a whole. -/
def merge (lower higher : Config α) : Config α where
  binning :=
    { magWidth := higher.binning.magWidth.or lower.binning.magWidth
      distanceWidth := higher.binning.distanceWidth.or lower.binning.distanceWidth
      coordinateWidth := higher.binning.coordinateWidth.or lower.binning.coordinateWidth
      epsilonBins := higher.binning.epsilonBins.or lower.binning.epsilonBins }
  request :=
    { truncation := higher.request.truncation.or lower.request.truncation
      maxDistance := higher.request.maxDistance.or lower.request.maxDistance
      time := higher.request.time.or lower.request.time
      poes := mergeList lower.request.poes higher.request.poes
      levels := if higher.request.levels.isEmpty then lower.request.levels else higher.request.levels
      imts := mergeList lower.request.imts higher.request.imts }
  execution :=
    { mode := higher.execution.mode.or lower.execution.mode
      threads := higher.execution.threads.or lower.execution.threads
      taskCount := higher.execution.taskCount.or lower.execution.taskCount
      pointFactor := higher.execution.pointFactor.or lower.execution.pointFactor
      views := mergeList lower.execution.views higher.execution.views
      tolerance := higher.execution.tolerance.or lower.execution.tolerance
      strict := higher.execution.strict.or lower.execution.strict }

end

end Config

/-! ### Environment variables -/

abbrev Environment : Type := String → Option String

namespace Environment

def lower (cs : List Char) : List Char := cs.map Char.toLower

/-- The digits before and after the point of a mantissa, of which there is at least one. -/
def mantissa? (cs : List Char) : Option (List Nat × Option (List Nat) × List Char) :=
  match Literal.digits cs with
  | (whole, '.' :: rest) =>
    match Literal.digits rest with
    | (fraction, rest) =>
      if whole = [] ∧ fraction = [] then none else some (whole, some fraction, rest)
  | (whole, rest) => if whole = [] then none else some (whole, none, rest)

/-- The exponent that is all that is left, if anything is. -/
def exponent? : List Char → Option (Option (Bool × List Nat))
  | [] => some none
  | c :: rest =>
    if c = 'e' ∨ c = 'E' then
      match Literal.sign rest with
      | (negative, rest) =>
        match Literal.digits rest with
        | ([], _) => none
        | (ds, []) => some (some (negative, ds))
        | (_, _ :: _) => none
    else none

/-- The numeral that a text stands for: with a sign or without, with digits on at least one side of
the point, or the words for infinity and no number in letters of any case. -/
def numeral? (s : String) : Option Numeral :=
  let (negative, cs) := Literal.sign s.toList
  if lower cs = ['i', 'n', 'f'] ∨ lower cs = "infinity".toList then some (.infinite negative)
  else if lower cs = ['n', 'a', 'n'] then some .nan
  else do
    let (whole, fraction, rest) ← mantissa? cs
    let exponent ← exponent? rest
    return (Literal.mk negative whole fraction exponent).numeral

def real? {α : Type} [DecimalText α] (s : String) : Option α := (numeral? s).map DecimalText.read

/-- The natural number that a text stands for, if it fits 64 bits. A plus sign may stand in front. -/
def nat? (s : String) : Option Nat :=
  let cs := match s.toList with
    | '+' :: rest => rest
    | cs => cs
  match Literal.digits cs with
  | ([], _) => none
  | (ds, []) => if Literal.ofDigits ds < UInt64.size then some (Literal.ofDigits ds) else none
  | (_, _ :: _) => none

def bool? (s : String) : Option Bool :=
  if s = "true" then some true else if s = "false" then some false else none

/-- The value of a variable, if it is set and has one. -/
def get? {β : Type} (env : Environment) (name : String) (f : String → Option β) : Option β :=
  (env name).bind f

/-- The settings that the environment variables make. -/
def config {α : Type} [DecimalText α] (env : Environment) : Config α :=
  { (Config.empty : Config α) with
    binning :=
      { magWidth := env.get? "DISAGG_BINNING_MAG_BIN_WIDTH" real?
        distanceWidth := env.get? "DISAGG_BINNING_DISTANCE_BIN_WIDTH" real?
        coordinateWidth := env.get? "DISAGG_BINNING_COORDINATE_BIN_WIDTH" real?
        epsilonBins := env.get? "DISAGG_BINNING_NUM_EPSILON_BINS" nat? }
    request :=
      { (Config.empty : Config α).request with
        truncation := env.get? "DISAGG_CALCULATION_TRUNCATION_LEVEL" real?
        maxDistance := env.get? "DISAGG_CALCULATION_MAXIMUM_DISTANCE" real? }
    execution :=
      { (Config.empty : Config α).execution with
        mode := env.get? "DISAGG_EXECUTION_MODE" ExecutionMode.ofText?
        threads := env.get? "DISAGG_EXECUTION_THREADS" nat?
        taskCount := env.get? "DISAGG_EXECUTION_CONCURRENT_TASKS" nat?
        strict := env.get? "DISAGG_EXECUTION_STRICT_SANITY_CHECK" bool? } }

end Environment

/-! ### Overrides -/

structure Overrides (α : Type) where
  mode : Option ExecutionMode
  threads : Option Nat
  taskCount : Option Nat
  poes : Option (List α)

namespace Overrides

def none {α : Type} : Overrides α := ⟨.none, .none, .none, .none⟩

/-- The explicit settings over a configuration. Thresholds are replaced even by an empty list. -/
def apply {α : Type} (o : Overrides α) (c : Config α) : Config α :=
  { c with
    request := { c.request with poes := o.poes.getD c.request.poes }
    execution :=
      { c.execution with
        mode := o.mode.or c.execution.mode
        threads := o.threads.or c.execution.threads
        taskCount := o.taskCount.or c.execution.taskCount } }

end Overrides

/-! ### Loading -/

/-- What is found at the path of a configuration file. -/
inductive FileContent where
  | absent
  /-- Something that is no text. -/
  | unreadable
  | text (s : String)

structure ConfigFile where
  path : String
  content : FileContent

namespace Config

section

variable {α : Type} [Scalar α] [DecimalText α]

/-- The settings that a file makes; none if it is absent. -/
def readFile (file : ConfigFile) : Except ConfigError (Config α) :=
  match file.content with
  | .absent => .ok empty
  | .unreadable => .error (.fileNotFound file.path)
  | .text s =>
    match read? s with
    | some c => .ok c
    | none => .error (.unparsable file.path none)

/-- The settings that the file of a user makes; one that cannot be read is passed over. -/
def readUserFile (file : ConfigFile) : Except ConfigError (Config α) :=
  match file.content with
  | .unreadable => .ok empty
  | _ => readFile file

def layered (user project : ConfigFile) (env : Environment) (overrides : Overrides α) :
    Except ConfigError (Config α) := do
  let user ← readUserFile user
  let project ← readFile project
  return overrides.apply (((empty.merge user).merge project).merge env.config)

def load (user project : ConfigFile) (env : Environment) (overrides : Overrides α) :
    Except ConfigError (Config α) := do
  let c ← layered user project env overrides
  c.validate
  return c

end

end Config

end SeismicHazard
