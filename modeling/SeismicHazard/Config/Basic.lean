import SeismicHazard.Marginal
import SeismicHazard.Number.Scalar
import Std.Data.TreeMap

/-!
# Configurations

A configuration has three sections: the widths of the bins, the request, and how it is carried out. A
setting that is not made has a default.

* `Config`: the settings that are made.
* `Config.magWidth` and the like: the value of a setting, or its default.
* `Config.measures`, `Config.thresholds`, `Config.marginals`: what is asked for.
-/

namespace SeismicHazard

open Std (TreeMap)

inductive ExecutionMode where
  | parallel
  | sequential
deriving DecidableEq

namespace ExecutionMode

def name : ExecutionMode → String
  | parallel => "parallel"
  | sequential => "sequential"

def ofName? (s : String) : Option ExecutionMode := [parallel, sequential].find? (·.name == s)

/-- A text with its ASCII letters in lower case. -/
def lowercase (s : String) : String := String.ofList (s.toList.map Char.toLower)

def ofText? (s : String) : Option ExecutionMode := ofName? (lowercase s)

def unknownMessage (s : String) : String := "unknown execution mode '" ++ lowercase s ++ "'"

end ExecutionMode

structure BinningConfig (α : Type) where
  magWidth : Option α
  distanceWidth : Option α
  coordinateWidth : Option α
  epsilonBins : Option Nat

structure RequestConfig (α : Type) where
  truncation : Option α
  maxDistance : Option α
  time : Option α
  /-- The probabilities whose levels are disaggregated. -/
  poes : List α
  /-- Levels that are disaggregated, by intensity measure type. -/
  levels : TreeMap String α
  imts : List String

structure ExecutionConfig (α : Type) where
  mode : Option ExecutionMode
  threads : Option Nat
  taskCount : Option Nat
  pointFactor : Option α
  views : List String
  tolerance : Option α
  strict : Option Bool

/-- The settings that are made. -/
structure Config (α : Type) where
  binning : BinningConfig α
  request : RequestConfig α
  execution : ExecutionConfig α

namespace Config

section

variable {α : Type}

def empty : Config α :=
  ⟨⟨none, none, none, none⟩, ⟨none, none, none, [], ∅, []⟩, ⟨none, none, none, none, [], none, none⟩⟩

variable [Scalar α]

def magWidth (c : Config α) : α := c.binning.magWidth.getD (Scalar.ratio 1 2)

/-- The width of the distance bins in km. -/
def distanceWidth (c : Config α) : α := c.binning.distanceWidth.getD (Scalar.ofNat 10)

/-- The width of the longitude and latitude bins in degrees. -/
def coordinateWidth (c : Config α) : α := c.binning.coordinateWidth.getD (Scalar.ratio 1 2)

def epsilonBins (c : Config α) : Nat := c.binning.epsilonBins.getD 3

/-- The number of standard deviations at which ground motion is cut. -/
def truncation (c : Config α) : α := c.request.truncation.getD (Scalar.ofNat 3)

/-- The distance in km beyond which no rupture counts. -/
def maxDistance (c : Config α) : α := c.request.maxDistance.getD (Scalar.ofNat 200)

/-- The number of years within which ground motion may be exceeded. -/
def time (c : Config α) : α := c.request.time.getD (Scalar.ofNat 50)

def mode (c : Config α) : ExecutionMode := c.execution.mode.getD .parallel

def pointFactor (c : Config α) : α := c.execution.pointFactor.getD (Scalar.ratio 1 10)

/-- How far the overall probabilities of the views of a result may lie apart. -/
def tolerance (c : Config α) : α := c.execution.tolerance.getD (Scalar.ratio 1 1000000)

def strict (c : Config α) : Bool := c.execution.strict.getD false

/-- The number of tasks to make, where `workers` threads are there if none are asked for. Twice a number
of threads is taken as a word of 64 bits. -/
def taskCount (c : Config α) (workers : Nat) : Nat :=
  c.execution.taskCount.getD
    (2 * ((c.execution.threads.filter (0 < ·)).getD workers) % UInt64.size)

/-- The intensity measure types; those with a level if none are asked for. -/
def measures (c : Config α) : List String :=
  if c.request.imts = [] then c.request.levels.keys else c.request.imts

/-- The thresholds of the targets; a single absent one if none are asked for. -/
def thresholds (c : Config α) : List (Option α) :=
  match c.request.poes with
  | [] => [none]
  | poes => poes.map some

def hasLevels (c : Config α) : Bool := !c.request.levels.isEmpty

/-- The marginals asked for, all of them if none is named. -/
def marginals (c : Config α) : List Marginal :=
  match c.execution.views with
  | [] => Marginal.all
  | names => names.filterMap Marginal.ofName?

end

end Config

end SeismicHazard
