import SeismicHazard.Grid.Extent
import SeismicHazard.Number.Span
import SeismicHazard.Result.Reduction

/-!
# Records of results

A record holds a result with everything that is needed to read it.

* `ResultKey.recordName`: the name of the record of a result.
* `Record.ofResult`: the record of a result.
* `Record.check`: whether the views of a record agree on the overall probability.
* `saveResults`: the records of all results, handed to a sink one by one.
-/

namespace SeismicHazard

/-- A result with its place, its bins and its views by name. -/
structure Record (α : Type) where
  name : String
  site : Nat
  lon : α
  lat : α
  realization : Nat
  imt : String
  level : α
  poe : Option α
  time : α
  regions : List String
  grid : Grid α
  views : List (String × Tensor α)
  /-- The overall probability that each view gives. -/
  aggregates : List α

namespace ResultKey

/-- Numbers in names have a fraction, and an exponent of at least two digits with its sign below
`0.0001` and from `1e+16` on. -/
def nameLayout : Layout where
  positional := some (-4, 16)
  pointZero := true
  plusSign := true
  exponentWidth := 2
  tie := .up
  nanText := "NaN"
  infinityText := "inf"

section

variable {α : Type} [DecimalText α]

def poePart (poe : Option α) : String :=
  match poe with
  | some p => "poe-" ++ nameLayout.text p ++ "-"
  | none => ""

def recordName (k : ResultKey α) (place : Point α) : String :=
  "disagg/" ++ poePart k.poe ++ "rlz-" ++ k.realization.repr ++ "-" ++ k.imt ++ "-"
    ++ nameLayout.text place.lon ++ "-" ++ nameLayout.text place.lat

end

end ResultKey

namespace Record

section

variable {α : Type} [Scalar α]

def ofResult [DecimalText α] (k : ResultKey α) (m : Marginals α) (site : Site α) (grid : Grid α)
    (time : α) : Record α where
  name := k.recordName site.location
  site := k.site
  lon := site.location.lon
  lat := site.location.lat
  realization := k.realization
  imt := k.imt
  level := k.level
  poe := k.poe
  time := time
  regions := k.regions
  grid := grid
  views := m.views.map fun (kind, t) => (kind.name, t)
  aggregates := m.aggregates

/-- Whether the numbers among some values lie within a tolerance. -/
def agree (tolerance : α) : List α → Bool
  | [] => true
  | xs =>
    match Span.ofNumbers xs with
    | some s => decide (s.hi - s.lo ≤ tolerance)
    | none => Scalar.isNumber tolerance

/-- In strict mode a record whose views do not agree on the overall probability is refused. -/
def check (r : Record α) (tolerance : α) (strict : Bool) : Except (Error α) Unit :=
  if agree tolerance r.aggregates || !strict then .ok ()
  else .error (.inconsistent r.name r.aggregates)

end

end Record

/-- What is needed beside the results to make records of them. -/
structure RecordContext (α : Type) where
  sites : Sites α
  grids : GridTable α
  time : α
  tolerance : α
  strict : Bool

/-- What has come of saving records: the state of the sink, the number of records saved, and the
failure that ended it. -/
structure Saving (σ α : Type) where
  sink : σ
  saved : Nat
  failure : Option (Error α)

section

variable {σ α : Type} [Scalar α] [DecimalText α]

def checkedRecord (c : RecordContext α) (k : ResultKey α) (m : Marginals α) :
    Except (Error α) (Record α) :=
  match c.sites.get? k.site, c.grids[k.site]? with
  | none, _ => .error (.input (.unknownSite k.site))
  | some _, none => .error (.input (.noEdges k.site))
  | some site, some grid => do
    let record := Record.ofResult k m site grid c.time
    record.check c.tolerance c.strict
    return record

/-- Saves the records of several results in order, up to the first failure. -/
def saveAll (c : RecordContext α) (save : σ → Record α → Except (Error α) σ) :
    List (ResultKey α × Marginals α) → σ → Nat → Saving σ α
  | [], s, saved => ⟨s, saved, none⟩
  | (k, m) :: rest, s, saved =>
    match checkedRecord c k m with
    | .error e => ⟨s, saved, some e⟩
    | .ok record =>
      match save s record with
      | .error e => ⟨s, saved, some e⟩
      | .ok s => saveAll c save rest s (saved + 1)

def saveResults [TotalOrder α] (c : RecordContext α) (save : σ → Record α → Except (Error α) σ)
    (results : Results α) (s : σ) : Saving σ α :=
  saveAll c save results.toList s 0

end

end SeismicHazard
