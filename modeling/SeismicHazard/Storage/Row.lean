import SeismicHazard.Exchange
import SeismicHazard.Record
import SeismicHazard.Storage.Payload

/-!
# The rows of the result store

A record is stored as one row for the result and one for each of its views. The bin edges, regions and
overall probabilities of a result stand in text columns, which keep finite numbers only and may give
back a neighbour of a number.

* `RunRow`, `ResultRow`, `ViewRow`: the rows.
* `ResultColumns.ofRecord`, `ViewColumns.ofRecord`: the columns of a record.
* `ResultRow.record`: the record that rows make.
* `ResultRow.reread?`: what a text column gives back.
* `ResultColumns.gridText` and the like: the texts of the text columns.
-/

namespace SeismicHazard

/-- A run of a calculation. -/
structure RunRow where
  id : Int
  started : Int
  completed : Option Int
  status : String
  numResults : Option Int
  error : Option String
  /-- The text of the configuration. -/
  config : Option String

/-- The columns of a result but for its own number and that of its run. -/
structure ResultColumns (α : Type) where
  name : String
  site : Nat
  lon : α
  lat : α
  /-- A whole number of 64 bits with a sign. -/
  realization : Int
  imt : String
  level : α
  poe : Option α
  time : α
  regions : List String
  /-- Edges that are not finite are absent. -/
  grid : Grid (Option α)
  /-- Probabilities that are not finite are absent. -/
  aggregates : List (Option α)

/-- A stored result. -/
structure ResultRow (α : Type) extends ResultColumns α where
  id : Int
  run : Int

/-- The columns of a view but for its place in a result. -/
structure ViewColumns where
  name : String
  shape : List Nat
  payload : List UInt8

structure ViewRow extends ViewColumns where
  result : Int
  ordinal : Nat

namespace Grid

variable {α β : Type}

def map (f : α → β) (g : Grid α) : Grid β :=
  ⟨g.magnitude.map f, g.distance.map f, g.longitude.map f, g.latitude.map f, g.epsilon.map f⟩

def mapM? (f : α → Option β) (g : Grid α) : Option (Grid β) := do
  return ⟨← g.magnitude.mapM f, ← g.distance.mapM f, ← g.longitude.mapM f, ← g.latitude.mapM f,
    ← g.epsilon.mapM f⟩

end Grid

section

variable {α : Type} [Scalar α]

/-- A number as a text column keeps it: one that is not finite is lost. -/
def finite? (x : α) : Option α := if Scalar.isFinite x then some x else none

/-- The whole number with a sign that has the same 64 bits. -/
def asSigned (n : Nat) : Int := (n : Int).bmod UInt64.size

namespace ResultColumns

/-- The columns of a record. A threshold that is no number is not kept. -/
def ofRecord (r : Record α) : ResultColumns α where
  name := r.name
  site := r.site
  lon := r.lon
  lat := r.lat
  realization := asSigned r.realization
  imt := r.imt
  level := r.level
  poe := r.poe.filter Scalar.isNumber
  time := r.time
  regions := r.regions
  grid := r.grid.map finite?
  aggregates := r.aggregates.map finite?

/-- The columns that must hold a number, in order. -/
def required (c : ResultColumns α) : List (String × α) :=
  [("lon", c.lon), ("lat", c.lat), ("iml", c.level), ("investigation_time", c.time)]

def missing? (c : ResultColumns α) : Option String :=
  (c.required.find? fun p => !Scalar.isNumber p.2).map (·.1)

section

variable [DecimalText α]

def keptJson (x : Option α) : Json := .opt .real x

def regionsText (c : ResultColumns α) : String := (Json.list (c.regions.map .str)).render

def gridText (c : ResultColumns α) : String :=
  (c.grid.toJson fun xs => .list (xs.map keptJson)).render

def aggregatesText (c : ResultColumns α) : String := (Json.list (c.aggregates.map keptJson)).render

end

end ResultColumns

namespace ViewColumns

def ofRecord [BitPattern α] (r : Record α) : List ViewColumns :=
  r.views.map fun (name, t) => ⟨name, t.shape, t.payload⟩

def shapeText (c : ViewColumns) : String := (Json.list (c.shape.map .nat)).render

def array [BitPattern α] (c : ViewColumns) : Except Unreadable (String × Tensor α) := do
  return (c.name, ← Tensor.ofPayload c.shape c.payload)

end ViewColumns

namespace ResultRow

/-- What a text column holds, if nothing was lost there. -/
def kept {β : Type} : Option β → Except Unreadable β
  | some x => .ok x
  | none => .error .text

/-- The number that a text column gives back, if it is not lost. It is read from its text as any number
in JSON is, which may lead to one next to it. -/
def reread? [DecimalText α] (x : Option α) : Option α := do (Json.real (← x)).real?

def realizationOf (id : Int) : Except Unreadable Nat :=
  if 0 ≤ id then .ok id.toNat else .error (.realization id)

def record [BitPattern α] [DecimalText α] (row : ResultRow α) (views : List ViewRow) :
    Except Unreadable (Record α) := do
  let views ← views.mapM fun v => v.array
  let grid ← kept (row.grid.mapM? reread?)
  let realization ← realizationOf row.realization
  let aggregates ← kept (row.aggregates.mapM reread?)
  return {
    name := row.name
    site := row.site
    lon := row.lon
    lat := row.lat
    realization := realization
    imt := row.imt
    level := row.level
    poe := row.poe
    time := row.time
    regions := row.regions
    grid := grid
    views := views
    aggregates := aggregates }

end ResultRow

end

end SeismicHazard
