import SeismicHazard.Curve.Table
import SeismicHazard.LogicTree.Basic
import SeismicHazard.Source.Model

/-!
# Thresholds that no curve reaches

A probability can be disaggregated for a realization only if the hazard curve of some site reaches
it. `LogicTree.checkReachable` finds the first combination of source model, realization, threshold
and intensity measure type for which none does.
-/

namespace SeismicHazard

namespace LogicTree

section

variable {α : Type} [Scalar α]

/-- Why a threshold is out of reach for a realization and an intensity measure type, if it is. -/
def unreachable? (curves : CurveTable α) (m : SourceModel α) (r : Realization α) (poe : α)
    (imt : String) : Option (Error α) :=
  let maxPoe := curves.maxPoe r.ordinal imt
  if maxPoe < poe then some (.unreachable m.ordinal m.name poe r.ordinal imt maxPoe) else none

/-- The first threshold that is out of reach: by source model, realization, threshold and intensity
measure type. -/
def firstUnreachable (t : LogicTree α) (models : List (SourceModel α)) (curves : CurveTable α)
    (imts : List String) (poes : List α) : Option (Error α) :=
  models.findSome? fun m =>
    (t.ofModel m.ordinal).findSome? fun r =>
      poes.findSome? fun poe => imts.findSome? fun imt => unreachable? curves m r poe imt

def checkReachable (t : LogicTree α) (models : List (SourceModel α)) (curves : CurveTable α)
    (imts : List String) (poes : List α) : Except (Error α) Unit :=
  match t.firstUnreachable models curves imts poes with
  | some e => .error e
  | none => .ok ()

end

end LogicTree

end SeismicHazard
