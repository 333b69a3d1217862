import SeismicHazard.Rupture
import SeismicHazard.Site

/-!
# Ruptures as seen from a site

What a ground-motion model is told about a rupture and a site. A rupture beyond the integration
distance of a site has no scenario there.
-/

namespace SeismicHazard

/-- A rupture as seen from a site. -/
structure Scenario (α : Type) where
  magnitude : α
  /-- The horizontal distance in km to the surface of the rupture. -/
  horizontal : α
  /-- The distance in km to the rupture. -/
  slant : α
  /-- The node of the rupture at which the horizontal distance is reached. -/
  node : Point α

namespace Scenario

variable {α : Type} [Scalar α] [Elementary α] [TotalOrder α]

/-- The distance to a node at the given horizontal distance, which lies `depth` below. -/
def slantDistance (horizontal depth : α) : α :=
  Elementary.sqrt (horizontal * horizontal + depth * depth)

/-- The rupture as seen from the site, unless it has no node or its nearest node lies beyond the
integration distance. -/
def ofRupture? (r : Rupture α) (site : Site α) : Option (Scenario α) :=
  match r.nearest site.location with
  | none => none
  | some (horizontal, node) =>
    if site.maxDistance < horizontal then none
    else some ⟨r.magnitude, horizontal, slantDistance horizontal node.depth, node⟩

end Scenario

end SeismicHazard
