import SeismicHazard.Curve.Basic
import Std.Data.TreeMap

/-!
# Tables of hazard curves

* `CurveSet`: the curves of one site and one realization, by intensity measure type.
* `CurveTable`: the curve sets of a calculation, by site and realization.
-/

namespace SeismicHazard

open Std (TreeMap)

/-- The hazard curves of one site and one realization, by intensity measure type. -/
structure CurveSet (α : Type) where
  byMeasure : TreeMap String (Curve α)

namespace CurveSet

section

variable {α : Type} [Scalar α]

def get? (s : CurveSet α) (imt : String) : Option (Curve α) := s.byMeasure[imt]?

/-- The greatest probability of the curve of `imt`, zero if there is none. -/
def maxPoe (s : CurveSet α) (imt : String) : α :=
  match s.get? imt with
  | some c => c.maxPoe
  | none => 0

def isZero (s : CurveSet α) : Bool := s.byMeasure.toList.all fun p => p.2.isZero

/-- The curves with the given points, by intensity measure type; the first one that makes no sense
is refused. -/
def make (points : List (String × List α × List α)) : Except (Error α) (CurveSet α) := do
  let curves ← points.mapM fun (imt, levels, poes) => do return (imt, ← Curve.make levels poes)
  return ⟨TreeMap.ofList curves⟩

end

end CurveSet

def comparePlaces : Nat × Nat → Nat × Nat → Ordering :=
  compareLex (compareOn (·.1)) (compareOn (·.2))

/-- The hazard curves of a calculation, by site id and realization. -/
structure CurveTable (α : Type) where
  byPlace : TreeMap (Nat × Nat) (CurveSet α) comparePlaces

namespace CurveTable

section

variable {α : Type}

def empty : CurveTable α := ⟨∅⟩

def size (t : CurveTable α) : Nat := t.byPlace.size

def insert (t : CurveTable α) (site realization : Nat) (curves : CurveSet α) : CurveTable α :=
  ⟨t.byPlace.insert (site, realization) curves⟩

def get? (t : CurveTable α) (site realization : Nat) : Option (CurveSet α) :=
  t.byPlace[(site, realization)]?

variable [Scalar α]

/-- The greatest probability of the curves of `imt` for a realization, over all sites, zero if there
is none. -/
def maxPoe (t : CurveTable α) (realization : Nat) (imt : String) : α :=
  ((t.byPlace.toList.filter fun p => p.1.2 == realization).map fun p => p.2.maxPoe imt).foldl
    Scalar.max 0

end

end CurveTable

end SeismicHazard
