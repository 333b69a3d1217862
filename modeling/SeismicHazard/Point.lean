import SeismicHazard.Number.Scalar

/-!
# Places

A place on the Earth with a depth below the surface.
-/

namespace SeismicHazard

/-- A place: longitude and latitude in degrees, depth in km, positive downwards. -/
structure Point (α : Type) where
  lon : α
  lat : α
  depth : α

namespace Point

def distance {α : Type} [Elementary α] (p q : Point α) : α :=
  Elementary.distance p.lon p.lat q.lon q.lat

def surface {α : Type} [Scalar α] (lon lat : α) : Point α := ⟨lon, lat, 0⟩

end Point

end SeismicHazard
