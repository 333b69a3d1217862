import SeismicHazard.Grid.Basic
import SeismicHazard.Grid.Edges
import SeismicHazard.Number.Span
import SeismicHazard.Source.Model
import Std.Data.TreeMap

/-!
# Extents of ruptures around a site

The extent of a site holds the distances, longitudes and latitudes of the ruptures that count for it.
Longitudes east and west of Greenwich are kept apart, so that an extent across the antimeridian can
be laid out without a gap, whatever the order of the ruptures.

* `Extent.add`: one more rupture.
* `Extent.longitude?`: west and east end in one frame.
* `Extent.edges?`: the bin edges that an extent gives rise to.
* `Extent.ofSite`: the extent of a site under given source models.
* `GridTable`: the grids of the sites that ruptures count for.
-/

namespace SeismicHazard

open Std (TreeMap)

/-- The ranges of the ruptures around a site. A range is absent as long as no number belongs to it. -/
structure Extent (α : Type) where
  distance : Option (Span α)
  east : Option (Span α)
  west : Option (Span α)
  latitude : Option (Span α)

/-- The edges that differ from site to site. -/
structure SiteEdges (α : Type) where
  distance : List α
  longitude : List α
  latitude : List α

structure SiteWidths (α : Type) where
  distance : α
  coordinate : α

namespace Extent

section

variable {α : Type}

def empty : Extent α := ⟨none, none, none, none⟩

def isEmpty (e : Extent α) : Bool := e.east.isNone && e.west.isNone

variable [Scalar α]

def add (e : Extent α) (distance lon lat : α) : Extent α where
  distance := Span.extendByNumber e.distance distance
  east := if 0 ≤ lon then Span.extend e.east lon else e.east
  west := if 0 ≤ lon then e.west else Span.extend e.west lon
  latitude := Span.extendByNumber e.latitude lat

def ofRuptures (rs : List (α × α × α)) : Extent α :=
  rs.foldl (fun e (distance, lon, lat) => e.add distance lon lat) empty

/-- The west and the east end. An extent on both sides of Greenwich that spans more than 180 degrees
is taken to cross the antimeridian, and its east end then exceeds 180. -/
def longitude? (e : Extent α) : Option (Span α) :=
  match e.west, e.east with
  | none, none => none
  | some w, none => some w
  | none, some e => some e
  | some w, some e =>
    if e.hi - w.lo ≤ Scalar.ofNat 180 then some ⟨w.lo, e.hi⟩
    else some ⟨e.lo, w.hi + Scalar.ofNat 360⟩

/-- The edges around a range; a range without a number has none. -/
def edgesAround (width : α) : Option (Span α) → List α
  | none => []
  | some s => snappedEdges s.lo s.hi width

def nonnegative (s : Span α) : Span α := ⟨Scalar.max s.lo 0, s.hi⟩

def edges? (e : Extent α) (widths : SiteWidths α) : Option (SiteEdges α) :=
  match e.longitude? with
  | none => none
  | some longitude =>
    some
      { distance := edgesAround widths.distance (e.distance.map nonnegative)
        longitude := snappedEdges longitude.lo longitude.hi widths.coordinate
        latitude := edgesAround widths.coordinate e.latitude }

variable [Elementary α] [TotalOrder α]

/-- The distance and the coordinates of the nearest node of a rupture, if the rupture lies within the
integration distance of a site. -/
def contribution? (site : Site α) (r : Rupture α) : Option (α × α × α) :=
  match r.nearest site.location with
  | some (distance, node) =>
    if distance ≤ site.maxDistance then some (distance, node.lon, node.lat) else none
  | none => none

/-- The ruptures of a source that count for a site. A source whose ruptures all lie beyond the
integration distance is passed over. -/
def contributions (site : Site α) (s : Source α) : List (α × α × α) :=
  if site.maxDistance < s.minDistance site.location then []
  else s.ruptures.filterMap (contribution? site)

def ofSite (models : List (SourceModel α)) (site : Site α) : Extent α :=
  ofRuptures ((SourceModel.allSources models).flatMap (contributions site))

end

end Extent

abbrev GridTable (α : Type) : Type := TreeMap Nat (Grid α)

namespace GridTable

variable {α : Type} [Scalar α]

/-- The grids of the sites whose extent is not empty, with the given edges of the common axes. Of two
grids of one site the later one is kept. -/
def ofExtents (magnitude epsilon : List α) (widths : SiteWidths α)
    (extents : List (Nat × Extent α)) : GridTable α :=
  extents.foldl (fun table (site, extent) =>
      match extent.edges? widths with
      | some e => table.insert site ⟨magnitude, e.distance, e.longitude, e.latitude, epsilon⟩
      | none => table)
    ∅

end GridTable

end SeismicHazard
