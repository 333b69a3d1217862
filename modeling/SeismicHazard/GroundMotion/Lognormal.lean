import SeismicHazard.GroundMotion.Model
import SeismicHazard.Neighbours

/-!
# A lognormal ground-motion model

The logarithm of the ground motion is normally distributed about

  `c₀ + c₁ · magnitude - c₂ · ln (distance + c₃)`

with a constant standard deviation, and the distribution is cut symmetrically.

* `LognormalModel.make`: coefficients by intensity measure type, checked.
* `LognormalModel.binMasses`: the probability of exceedance in each epsilon bin.
* `LognormalModel.toModel`: the model as a ground-motion model.
-/

namespace SeismicHazard

open Std (TreeMap)

/-- The coefficients for an intensity measure type. -/
structure Attenuation (α : Type) where
  c₀ : α
  c₁ : α
  c₂ : α
  c₃ : α
  sigma : α

def Attenuation.isProper {α : Type} [Scalar α] (c : Attenuation α) : Bool := decide (0 < c.sigma)

def Attenuation.mean {α : Type} [Scalar α] [Elementary α] (c : Attenuation α) (s : Scenario α) :
    α :=
  c.c₀ + c.c₁ * s.magnitude - c.c₂ * Elementary.ln (s.slant + c.c₃)

structure LognormalModel (α : Type) where
  name : String
  coefficients : TreeMap String (Attenuation α)

namespace LognormalModel

section

variable {α : Type} [Scalar α]

/-- The model with the given coefficients, unless a standard deviation is not greater than zero. -/
def make (name : String) (coefficients : TreeMap String (Attenuation α)) :
    Except (Error α) (LognormalModel α) :=
  match coefficients.toList.find? fun p => !p.2.isProper with
  | some (imt, _) => .error (.groundMotion name (.sigma imt))
  | none => .ok ⟨name, coefficients⟩

variable [Elementary α]

def meanAndDeviation (m : LognormalModel α) (s : Scenario α) (imt : String) :
    Except (Error α) (α × α) :=
  match m.coefficients[imt]? with
  | some c => .ok (c.mean s, c.sigma)
  | none => .error (.groundMotion m.name (.unknownMeasure imt))

/-- The probability that epsilon lies between two edges and above `threshold`, relative to `mass`. -/
def binMass (mass threshold lo hi : α) : α :=
  let lower := Scalar.max lo threshold
  if hi ≤ lower then 0 else (Elementary.normalCdf hi - Elementary.normalCdf lower) / mass

def binMasses (mass threshold : α) (edges : List α) : List α :=
  (neighbours edges).map fun (lo, hi) => binMass mass threshold lo hi

/-- The probability that epsilon lies within the truncation. -/
def truncatedMass (truncation : α) : α :=
  Elementary.normalCdf truncation - Elementary.normalCdf (-truncation)

/-- The probability of exceedance in every epsilon bin. The level must be greater than zero. -/
def exceedance (m : LognormalModel α) (s : Scenario α) (q : ExceedanceQuery α) :
    Except (Error α) (List α) :=
  if 0 < q.level then do
    let (mean, sigma) ← m.meanAndDeviation s q.imt
    let threshold := (Elementary.ln q.level - mean) / sigma
    return binMasses (truncatedMass q.truncation) threshold q.epsilonEdges
  else .error (.groundMotion m.name (.level q.level))

def toModel (m : LognormalModel α) : GroundMotionModel α := ⟨m.name, m.exceedance⟩

end

end LognormalModel

end SeismicHazard
