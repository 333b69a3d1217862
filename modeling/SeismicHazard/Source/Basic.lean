import SeismicHazard.Rupture
import SeismicHazard.Site
import SeismicHazard.Source.Recurrence

/-!
# Seismic sources

* `PointSource`: all ruptures at one hypocentre.
* `AreaSource`: the same rates shared evenly by several places.
* `RuptureSource`: ruptures listed one by one.
* `Source`: one of these, with what the calculation asks of a source: its magnitudes, its ruptures,
  a lower bound of their distance, its weight, and the parts it splits into.
-/

namespace SeismicHazard

/-- A source whose ruptures all lie at one place. -/
structure PointSource (α : Type) where
  id : String
  region : String
  hypocenter : Point α
  recurrence : Recurrence α

/-- A source whose rates are shared evenly by at least one place. -/
structure AreaSource (α : Type) where
  id : String
  region : String
  firstNode : Point α
  otherNodes : List (Point α)
  recurrence : Recurrence α

/-- A source that lists its ruptures and states its magnitudes and a lower bound of the distance of
its ruptures to a place. -/
structure RuptureSource (α : Type) where
  id : String
  region : String
  magnitudes : Span α
  minDistance : Point α → α
  ruptures : List (Rupture α)

inductive Source (α : Type) where
  | point (s : PointSource α)
  | area (s : AreaSource α)
  | listed (s : RuptureSource α)

namespace PointSource

section

variable {α : Type} [Scalar α]

def make (id region : String) (hypocenter : Point α) (recurrence : Recurrence α) :
    Except (Error α) (PointSource α) :=
  match recurrence.fault? with
  | some fault => .error (.sourceFailed id (.input fault))
  | none => .ok ⟨id, region, hypocenter, recurrence⟩

variable [Elementary α]

/-- A rupture at the hypocentre for every magnitude with a rate greater than zero. -/
def ruptures (s : PointSource α) : List (Rupture α) :=
  s.recurrence.positiveRates.map fun (mag, rate) => ⟨mag, rate, [s.hypocenter]⟩

end

end PointSource

namespace AreaSource

section

variable {α : Type}

def nodes (s : AreaSource α) : List (Point α) := s.firstNode :: s.otherNodes

variable [Scalar α]

/-- An area source over the given places, unless there is none or its recurrence makes no sense. -/
def make (id region : String) (nodes : List (Point α)) (recurrence : Recurrence α) :
    Except (Error α) (AreaSource α) :=
  match nodes with
  | [] => .error (.sourceWithoutNodes id)
  | first :: others =>
    match recurrence.fault? with
    | some fault => .error (.sourceFailed id (.input fault))
    | none => .ok ⟨id, region, first, others, recurrence⟩

/-- The number of places every `spacing` degrees from `lo` on that do not pass `hi`; a bound that lies
on the grid up to rounding gets its place. -/
def gridCount (lo hi spacing : α) : Nat :=
  (Scalar.floor ((hi - lo) / spacing + Scalar.ratio 1 1000000000)).toNat + 1

/-- The places of a regular grid, row by row from the south-west corner. -/
def grid (west south east north spacing depth : α) : List (Point α) :=
  (List.range (gridCount south north spacing)).flatMap fun j =>
    (List.range (gridCount west east spacing)).map fun i =>
      ⟨west + Scalar.ofNat i * spacing, south + Scalar.ofNat j * spacing, depth⟩

/-- An area source over a regular grid, unless the bounds are reversed, the spacing is not positive
or the recurrence makes no sense. -/
def ofBounds (id region : String) (west south east north spacing depth : α)
    (recurrence : Recurrence α) : Except (Error α) (AreaSource α) :=
  if ¬ 0 < spacing ∨ east < west ∨ north < south then .error (.sourceBounds id spacing)
  else make id region (grid west south east north spacing depth) recurrence

/-- The part of the rates that belongs to one place. -/
def share (s : AreaSource α) : α := 1 / Scalar.ofNat s.nodes.length

variable [Elementary α]

/-- The least distance of the places of the source. -/
def minDistance (s : AreaSource α) (place : Point α) : α :=
  (s.otherNodes.map (·.distance place)).foldl Scalar.min (s.firstNode.distance place)

/-- At every place, a rupture for every magnitude with a rate greater than zero, which carries the
share of the place. -/
def ruptures (s : AreaSource α) : List (Rupture α) :=
  s.nodes.flatMap fun node =>
    s.recurrence.positiveRates.map fun (mag, rate) => ⟨mag, rate * s.share, [node]⟩

/-- The rates of one place, given by bin from the first magnitude on. -/
def partRecurrence (s : AreaSource α) : Recurrence α :=
  .binned s.recurrence.magnitudes.lo s.recurrence.width
    (s.recurrence.rates.map fun p => p.2 * s.share)

/-- One point source for every place; the source itself if the rates of a place make no sense. -/
def split (s : AreaSource α) : List (Source α) :=
  match s.partRecurrence.fault? with
  | some _ => [.area s]
  | none =>
    s.nodes.mapIdx fun i node =>
      .point ⟨s.id ++ ":" ++ i.repr, s.region, node, s.partRecurrence⟩

end

end AreaSource

namespace Source

section

variable {α : Type}

def id : Source α → String
  | point s => s.id
  | area s => s.id
  | listed s => s.id

def region : Source α → String
  | point s => s.region
  | area s => s.region
  | listed s => s.region

def isPoint : Source α → Bool
  | point _ => true
  | _ => false

variable [Scalar α]

def numRuptures : Source α → Nat
  | point s => s.recurrence.numBins
  | area s => s.nodes.length * s.recurrence.numBins
  | listed s => s.ruptures.length

/-- The relative cost of the source: its number of ruptures, times a factor for a point. -/
def weight (pointFactor : α) (s : Source α) : α :=
  if s.isPoint then Scalar.ofNat s.numRuptures * pointFactor else Scalar.ofNat s.numRuptures

variable [Elementary α]

def magnitudes : Source α → Span α
  | point s => s.recurrence.magnitudes
  | area s => s.recurrence.magnitudes
  | listed s => s.magnitudes

/-- A lower bound of the distance of the ruptures to a place. -/
def minDistance : Source α → Point α → α
  | point s, place => s.hypocenter.distance place
  | area s, place => s.minDistance place
  | listed s, place => s.minDistance place

def ruptures : Source α → List (Rupture α)
  | point s => s.ruptures
  | area s => s.ruptures
  | listed s => s.ruptures

/-- The elementary parts of the source; one that cannot be split is its own part. -/
def split : Source α → List (Source α)
  | area s => s.split
  | s => [s]

/-- The sites that the source may affect. -/
def sitesInReach (s : Source α) (sites : Sites α) : List (Site α) :=
  sites.toList.filter fun site => decide (s.minDistance site.location ≤ site.maxDistance)

def affects (s : Source α) (sites : Sites α) : Bool := !(s.sitesInReach sites).isEmpty

end

end Source

end SeismicHazard
