import SeismicHazard.Error
import SeismicHazard.Point

/-!
# Sites

The places at which hazard is computed, each with the distance up to which ruptures count.

* `Sites.ofList`: a collection of sites; their ids differ, and their distances are finite and
  positive, or there is none.
* `Sites.ofLocations`: sites numbered in order, with one distance.
-/

namespace SeismicHazard

/-- A site. Ruptures farther away than `maxDistance` km do not count. -/
structure Site (α : Type) where
  id : Nat
  location : Point α
  maxDistance : α

structure Sites (α : Type) where
  toList : List (Site α)

/-- The least of the ids that occur more than once. -/
def leastRepeated (ids : List Nat) : Option Nat :=
  (ids.filter fun id => 1 < ids.count id).min?

namespace Sites

section

variable {α : Type}

def empty : Sites α := ⟨[]⟩

def ids (s : Sites α) : List Nat := s.toList.map (·.id)

def size (s : Sites α) : Nat := s.toList.length

def get? (s : Sites α) (id : Nat) : Option (Site α) := s.toList.find? (·.id == id)

def filter (s : Sites α) (p : Site α → Bool) : Sites α := ⟨s.toList.filter p⟩

variable [Scalar α]

/-- The collection of the given sites. A repeated id is refused first, the least one if there are
several, then the first distance that is not finite and positive. -/
def ofList (sites : List (Site α)) : Except (Error α) (Sites α) :=
  match leastRepeated (sites.map (·.id)) with
  | some id => .error (.input (.duplicateSite id))
  | none =>
    match sites.find? fun s => !Scalar.isPositive s.maxDistance with
    | some s => .error (.input (.siteDistance s.id))
    | none => .ok ⟨sites⟩

/-- Sites at the given longitudes and latitudes, numbered from zero, with one distance. -/
def ofLocations (locations : List (α × α)) (maxDistance : α) : Except (Error α) (Sites α) :=
  ofList (locations.mapIdx fun i p => ⟨i, .surface p.1 p.2, maxDistance⟩)

end

end Sites

end SeismicHazard
