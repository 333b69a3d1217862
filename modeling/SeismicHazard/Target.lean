import SeismicHazard.Curve.Table
import SeismicHazard.Site

/-!
# What is disaggregated

A target names a realization, its ground-motion model, an intensity measure type and a probability
threshold; it has a level of ground motion at each site.

* `Target.all`: all targets of a group of sources.
* `Target.level?`: the level of a target at a site.
* `Target.levels`: the levels of all targets at all sites.
-/

namespace SeismicHazard

open Std (TreeMap)

/-- A realization and what is asked of it. The threshold is absent if only levels are given. -/
structure Target (α : Type) where
  poe : Option α
  model : String
  imt : String
  realization : Nat

/-- For each site the levels of all targets, in the order of the targets; a target without a level
there has none. -/
abbrev LevelTable (α : Type) : Type := TreeMap Nat (List (Option α))

namespace Target

section

variable {α : Type}

/-- Every combination of a realization with an intensity measure type and a threshold, by
ground-motion model. -/
def all (byModel : TreeMap String (List Nat)) (imts : List String) (thresholds : List (Option α)) :
    List (Target α) :=
  byModel.toList.flatMap fun (model, realizations) =>
    realizations.flatMap fun realization =>
      imts.flatMap fun imt => thresholds.map fun poe => ⟨poe, model, imt, realization⟩

variable [Scalar α]

/-- The level of a target at a site: the level given for its intensity measure type, or else the
level at which the hazard curve of the site reaches the threshold. A curve that is missing or zero
everywhere gives none. -/
def level? (fixed : TreeMap String α) (curves : CurveTable α) (site : Nat) (t : Target α) :
    Option α :=
  match fixed[t.imt]? with
  | some level => some level
  | none => do
    let poe ← t.poe
    let set ← curves.get? site t.realization
    let curve ← set.get? t.imt
    if curve.isZero then none else some (curve.levelAt poe)

def levels (fixed : TreeMap String α) (curves : CurveTable α) (sites : Sites α)
    (targets : List (Target α)) : LevelTable α :=
  TreeMap.ofList (sites.toList.map fun s => (s.id, targets.map (level? fixed curves s.id)))

end

end Target

end SeismicHazard
