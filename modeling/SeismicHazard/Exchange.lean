import SeismicHazard.Grid.Basic
import SeismicHazard.GroundMotion.Lognormal
import SeismicHazard.Json.Reader
import SeismicHazard.LogicTree.Basic
import SeismicHazard.Source.Recurrence
import SeismicHazard.Target

/-!
# Exchange of inputs as JSON

The JSON forms of the values from which calculations are set up. Reading checks the form only, not
whether the values make sense.
-/

namespace SeismicHazard

def Grid.toJson {β : Type} (f : List β → Json) (g : Grid β) : Json :=
  .obj [("mag", f g.magnitude), ("dist", f g.distance), ("lon", f g.longitude),
    ("lat", f g.latitude), ("eps", f g.epsilon)]

class JsonForm (β : Type) where
  write : β → Json
  read? : Json → Option β

namespace JsonForm

def maxHalfWord : Nat := UInt32.size - 1

section

variable {α : Type} [Scalar α] [DecimalText α]

instance : JsonForm (Point α) where
  write p := .obj [("lon", .real p.lon), ("lat", .real p.lat), ("depth", .real p.depth)]
  read? json := do
    match ← json.fields? ["lon", "lat", "depth"] with
    | [some lon, some lat, depth] =>
      return ⟨← lon.real?, ← lat.real?, ← Json.orElse? 0 Json.real? depth⟩
    | _ => none

instance : JsonForm (Site α) where
  write s :=
    .obj [("id", .nat s.id), ("location", write s.location), ("max_distance", .real s.maxDistance)]
  read? json := do
    match ← json.fields? ["id", "location", "max_distance"] with
    | [some id, some location, some maxDistance] =>
      return ⟨← id.nat? maxHalfWord, ← read? location, ← maxDistance.real?⟩
    | _ => none

instance : JsonForm (Grid α) where
  write g := g.toJson .reals
  read? json := do
    match ← json.fields? ["mag", "dist", "lon", "lat", "eps"] with
    | [some mag, some dist, some lon, some lat, some eps] =>
      return ⟨← mag.list? Json.real?, ← dist.list? Json.real?, ← lon.list? Json.real?,
        ← lat.list? Json.real?, ← eps.list? Json.real?⟩
    | _ => none

instance : JsonForm (Curve α) where
  write c := .obj [("levels", .reals c.levels), ("poes", .reals c.poes)]
  read? json := do
    match ← json.fields? ["levels", "poes"] with
    | [some levels, some poes] => return ⟨← levels.list? Json.real?, ← poes.list? Json.real?⟩
    | _ => none

instance : JsonForm (CurveSet α) where
  write s := .obj [("by_imt", .ofMap write s.byMeasure)]
  read? json := do
    match ← json.fields? ["by_imt"] with
    | [some curves] => return ⟨← curves.map? read?⟩
    | _ => none

instance : JsonForm (Realization α) where
  write r :=
    .obj [("ordinal", .nat r.ordinal), ("source_model", .nat r.sourceModel),
      ("weight", .real r.weight), ("gsim_by_trt", .ofMap .str r.groundMotion)]
  read? json := do
    match ← json.fields? ["ordinal", "source_model", "weight", "gsim_by_trt"] with
    | [some ordinal, some sourceModel, some weight, some groundMotion] =>
      return ⟨← ordinal.nat? Literal.maxWord, ← sourceModel.nat? Literal.maxWord, ← weight.real?,
        ← groundMotion.map? Json.text?⟩
    | _ => none

instance : JsonForm (Target α) where
  write t :=
    .obj [("poe", .opt .real t.poe), ("gsim", .str t.model), ("imt", .str t.imt),
      ("rlz_id", .nat t.realization)]
  read? json := do
    match ← json.fields? ["poe", "gsim", "imt", "rlz_id"] with
    | [poe, some model, some imt, some realization] =>
      return ⟨← Json.optional? Json.real? poe, ← model.text?, ← imt.text?,
        ← realization.nat? Literal.maxWord⟩
    | _ => none

instance : JsonForm (Attenuation α) where
  write c :=
    .obj [("c0", .real c.c₀), ("c1", .real c.c₁), ("c2", .real c.c₂), ("c3", .real c.c₃),
      ("sigma", .real c.sigma)]
  read? json := do
    match ← json.fields? ["c0", "c1", "c2", "c3", "sigma"] with
    | [some c₀, some c₁, some c₂, some c₃, some sigma] =>
      return ⟨← c₀.real?, ← c₁.real?, ← c₂.real?, ← c₃.real?, ← sigma.real?⟩
    | _ => none

/-- The tag of a tagged structure and the structure without it. The tag is the field `kind` of a
record or the first item of a list. -/
def untag? : Json → Option (String × Json)
  | .record fields =>
    if Json.atMostOnce fields "kind" then
      match Json.field? fields "kind" with
      | some (.text (some tag)) => some (tag, .record (fields.filter (·.1 != some "kind")))
      | _ => none
    else none
  | .list (.text (some tag) :: items) => some (tag, .list items)
  | _ => none

/-- How deep lists and records may be nested in a tagged structure. Such a structure is read as a whole
before its tag is looked for, so that everything in it must be readable. -/
def maxDepth : Nat := 127

/-- Rates of bins, without their tag. -/
def readBinned? (json : Json) : Option (Recurrence α) := do
  match ← json.fields? ["min_mag", "bin_width", "rates"] with
  | [some minMag, some width, some rates] =>
    return .binned (← minMag.real?) (← width.real?) (← rates.list? Json.real?)
  | _ => none

/-- A Gutenberg-Richter law, without its tag. -/
def readTruncated? (json : Json) : Option (Recurrence α) := do
  match ← json.fields? ["a_val", "b_val", "min_mag", "max_mag", "bin_width"] with
  | [some a, some b, some minMag, some maxMag, some width] =>
    return .truncated (← a.real?) (← b.real?) (← minMag.real?) (← maxMag.real?) (← width.real?)
  | _ => none

instance : JsonForm (Recurrence α) where
  write
    | .binned minMag width rates =>
      .obj [("kind", .str "discrete"), ("min_mag", .real minMag), ("bin_width", .real width),
        ("rates", .reals rates)]
    | .truncated a b minMag maxMag width =>
      .obj [("kind", .str "truncated_gr"), ("a_val", .real a), ("b_val", .real b),
        ("min_mag", .real minMag), ("max_mag", .real maxMag), ("bin_width", .real width)]
  read? json := do
    guard (json.isWithin maxDepth && json.leaves.all (Json.isReadable α))
    let (tag, body) ← untag? json
    if tag = "discrete" then readBinned? body
    else if tag = "truncated_gr" then readTruncated? body
    else none

end

def ofText? {β : Type} [JsonForm β] (s : String) : Option β := do read? (← Json.parse? s)

def toText {β : Type} [JsonForm β] (x : β) : String := (write x).render

end JsonForm

end SeismicHazard
