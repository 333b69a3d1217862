import SeismicHazard.Axis
import SeismicHazard.Number.Scalar
import SeismicHazard.Tensor

/-!
# Marginal distributions

A marginal keeps some axes of the joint distribution. The probabilities of the cells that differ only
along the other axes are combined as those of independent events: the complement of the combined
probability is the product of the complements.

* `Marginal`: which axes are kept.
* `Marginal.ofJoint`: the marginal of a joint distribution.
* `eitherOf`, `anyOf`: the probability that at least one of independent events happens.
-/

namespace SeismicHazard

/-- A choice of axes to keep. -/
inductive Marginal where
  | mag
  | dist
  | region
  | magDist
  | magDistEps
  | lonLat
  | magLonLat
  | lonLatRegion
deriving DecidableEq

namespace Marginal

/-- All marginals, in their usual order. -/
def all : List Marginal :=
  [mag, dist, region, magDist, magDistEps, lonLat, magLonLat, lonLatRegion]

def name : Marginal → String
  | mag => "Mag"
  | dist => "Dist"
  | region => "TRT"
  | magDist => "Mag_Dist"
  | magDistEps => "Mag_Dist_Eps"
  | lonLat => "Lon_Lat"
  | magLonLat => "Mag_Lon_Lat"
  | lonLatRegion => "Lon_Lat_TRT"

def ofName? (s : String) : Option Marginal := all.find? (·.name == s)

theorem ofName?_name (m : Marginal) : ofName? m.name = some m := by
  cases m <;> decide

def ordinal (m : Marginal) : Nat := all.idxOf m

def axes : Marginal → List Axis
  | mag => [.magnitude]
  | dist => [.distance]
  | region => [.region]
  | magDist => [.magnitude, .distance]
  | magDistEps => [.magnitude, .distance, .epsilon]
  | lonLat => [.longitude, .latitude]
  | magLonLat => [.magnitude, .longitude, .latitude]
  | lonLatRegion => [.longitude, .latitude, .region]

section

variable {α : Type} [Scalar α]

def complement (p : α) : α := 1 - p

/-- The marginal of a distribution given by the complements of its probabilities. -/
def ofComplement (m : Marginal) (t : Tensor α) : Tensor α :=
  (t.foldOver (m.axes.map (·.index))).map complement

def ofJoint (m : Marginal) (joint : Tensor α) : Tensor α := m.ofComplement (joint.map complement)

end

end Marginal

section

variable {α : Type} [Scalar α]

/-- The probability that at least one of two independent events happens. -/
def eitherOf (p q : α) : α := 1 - (1 - p) * (1 - q)

/-- The probability that at least one of several independent events happens. -/
def anyOf (ps : List α) : α := 1 - ps.foldl (fun none p => none * (1 - p)) 1

end

end SeismicHazard
