/-!
# The axes of a disaggregation

A disaggregation distributes a probability over six coordinates of the ruptures that cause it.
-/

namespace SeismicHazard

inductive Axis where
  | magnitude
  | distance
  | longitude
  | latitude
  | epsilon
  | region
deriving DecidableEq

namespace Axis

/-- The axes in the order in which arrays are laid out. -/
def all : List Axis := [magnitude, distance, longitude, latitude, epsilon, region]

def index : Axis → Nat
  | magnitude => 0
  | distance => 1
  | longitude => 2
  | latitude => 3
  | epsilon => 4
  | region => 5

def label : Axis → String
  | magnitude => "magnitude"
  | distance => "distance"
  | longitude => "longitude"
  | latitude => "latitude"
  | epsilon => "epsilon"
  | region => "tectonic region"

theorem all_index (a : Axis) : all[a.index]? = some a := by
  cases a <;> rfl

end Axis

end SeismicHazard
