import SeismicHazard.Point

/-!
# Ruptures

A rupture has a magnitude, a yearly rate of occurrence, and the nodes of its surface.

* `Rupture.nearest`: the node closest to a place, with its distance.
* `Rupture.nonExceedance`: the Poissonian probability that the rupture leads to no exceedance.
-/

namespace SeismicHazard

/-- A rupture with its occurrences per year. -/
structure Rupture (α : Type) where
  magnitude : α
  rate : α
  surface : List (Point α)

/-- The first of the pairs whose number is least in the total order. -/
def leastBy {α β : Type} [TotalOrder α] : List (α × β) → Option (α × β)
  | [] => none
  | p :: rest => some (rest.foldl (fun best q => if TotalOrder.cmp q.1 best.1 == .lt then q else best) p)

namespace Rupture

section

variable {α : Type}

/-- The distance to a place and the node of the surface at which it is reached, the first such
node. -/
def nearest [Elementary α] [TotalOrder α] (r : Rupture α) (place : Point α) : Option (α × Point α) :=
  leastBy (r.surface.map fun node => (node.distance place, node))

/-- The probability that no occurrence within `time` years leads to an exceedance, which each does
with probability `poe`. -/
def nonExceedance [Scalar α] [Elementary α] (r : Rupture α) (poe time : α) : α :=
  Elementary.exp (-r.rate * time * poe)

end

end Rupture

end SeismicHazard
