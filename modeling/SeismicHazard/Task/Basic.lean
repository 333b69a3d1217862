import SeismicHazard.Blocks
import SeismicHazard.Grid.Extent
import SeismicHazard.GroundMotion.Model
import SeismicHazard.Marginal
import SeismicHazard.Target

/-!
# Tasks

The work of a calculation is cut into tasks, each of which holds some sources of one group.

* `Setting`: what all tasks share.
* `WorkGroup`: a group of sources with its models, targets and levels.
* `Task`: a block of the sources of a work group.
* `WorkGroup.tasks`: the tasks of several work groups.
-/

namespace SeismicHazard

/-- What all tasks of a calculation share. -/
structure Setting (α : Type) where
  sites : Sites α
  /-- The tectonic region types, in the order of their bins. -/
  regions : List String
  grids : GridTable α
  truncation : α
  time : α
  epsilonEdges : List α
  /-- Whether the levels are given rather than read off the hazard curves. -/
  fixedLevels : Bool
  marginals : List Marginal

/-- A group of sources with what is asked of it. -/
structure WorkGroup (α : Type) where
  sourceModel : Nat
  group : Nat
  sources : List (Source α)
  models : RegionModels α
  targets : List (Target α)
  levels : LevelTable α

/-- A block of the sources of a work group. -/
structure Task (α : Type) where
  number : Nat
  work : WorkGroup α
  setting : Setting α

namespace Setting

variable {α : Type}

def epsilonBins (s : Setting α) : Nat := s.epsilonEdges.length - 1

def regionIndex? (s : Setting α) (region : String) : Option Nat := s.regions.idxOf? region

end Setting

namespace WorkGroup

section

variable {α : Type} [Scalar α] [Elementary α]

/-- The parts of the sources that may affect a site. -/
def parts (g : WorkGroup α) (sites : Sites α) : List (Source α) :=
  (g.sources.flatMap (·.split)).filter (·.affects sites)

/-- The work group with the parts of its sources that may affect a site, if there is one. -/
def inReach? (sites : Sites α) (g : WorkGroup α) : Option (WorkGroup α) :=
  match g.parts sites with
  | [] => none
  | part :: parts => some { g with sources := part :: parts }

def blocks (numBlocks : Nat) (pointFactor : α) (g : WorkGroup α) : List (WorkGroup α) :=
  (SeismicHazard.blocks g.sources numBlocks (·.weight pointFactor)).map fun block =>
    { g with sources := block }

/-- The tasks of several work groups, numbered in order. About `count` tasks are made, shared evenly
by the groups that have a source in reach of a site. -/
def tasks (setting : Setting α) (count : Nat) (pointFactor : α) (groups : List (WorkGroup α)) :
    List (Task α) :=
  let groups := groups.filterMap (inReach? setting.sites)
  let perGroup := ceilDiv (Max.max count 1) groups.length
  (groups.flatMap (blocks perGroup pointFactor)).mapIdx fun i work => ⟨i, work, setting⟩

end

end WorkGroup

end SeismicHazard
