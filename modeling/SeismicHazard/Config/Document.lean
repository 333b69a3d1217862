import SeismicHazard.Config.Validation
import SeismicHazard.Toml.Parser
import SeismicHazard.Toml.Quoted

/-!
# Configurations as TOML

* `Config.ofDocument?`: the settings that a document makes. Unknown names are passed over.
* `Config.ofToml`: a configuration from a text, checked.
* `Config.toToml`: the text of a configuration.
-/

namespace SeismicHazard

open Std (TreeMap)

namespace Toml

section

variable {α : Type} [Scalar α] [DecimalText α]

/-- A number; an integer stands for the number nearest to it. -/
def real? : Toml → Option α
  | float x => some (DecimalText.read x)
  | integer n => some (n : α)
  | _ => none

def nat? : Toml → Option Nat
  | integer n => if 0 ≤ n then some n.toNat else none
  | _ => none

def bool? : Toml → Option Bool
  | bool b => some b
  | _ => none

def text? : Toml → Option String
  | text s => some s
  | _ => none

def list? {β : Type} (f : Toml → Option β) : Toml → Option (List β)
  | list items => items.mapM f
  | _ => none

def reals? : Toml → Option (TreeMap String α)
  | table fields => do
    let pairs ← fields.mapM fun (name, x) => do return (name, ← real? x)
    return TreeMap.ofList pairs
  | _ => none

def isVoid : Toml → Bool
  | list items => items.isEmpty
  | table fields => fields.isEmpty
  | _ => false

/-- A mode: its name, or a table whose only key is its name and holds nothing. -/
def mode? : Toml → Option ExecutionMode
  | text s => ExecutionMode.ofName? s
  | table [(name, x)] => if x.isVoid then ExecutionMode.ofName? name else none
  | _ => none

/-- The values of the named fields of a section, which may be absent. A list gives them in order; a
date or time gives none. -/
def section? (names : List String) : Toml → Option (List (Option Toml))
  | table fields => some (names.map fun name => (fields.find? (·.1 == name)).map (·.2))
  | list items => some (names.mapIdx fun i _ => items[i]?)
  | moment => some (names.map fun _ => none)
  | _ => none

def optional? {β : Type} (f : Toml → Option β) : Option Toml → Option (Option β)
  | none => some none
  | some x => (f x).map some

def orElse? {β : Type} (default : β) (f : Toml → Option β) : Option Toml → Option β
  | none => some default
  | some x => f x

def binning? (t : Toml) : Option (BinningConfig α) := do
  match ← t.section? ["mag_bin_width", "distance_bin_width", "coordinate_bin_width",
      "num_epsilon_bins"] with
  | [mag, distance, coordinate, bins] =>
    return ⟨← optional? real? mag, ← optional? real? distance, ← optional? real? coordinate,
      ← optional? nat? bins⟩
  | _ => none

def request? (t : Toml) : Option (RequestConfig α) := do
  match ← t.section? ["truncation_level", "maximum_distance", "investigation_time", "poes_disagg",
      "iml_disagg", "intensity_measure_types"] with
  | [truncation, maxDistance, time, poes, levels, imts] =>
    return ⟨← optional? real? truncation, ← optional? real? maxDistance, ← optional? real? time,
      ← orElse? [] (list? real?) poes, ← orElse? ∅ reals? levels, ← orElse? [] (list? text?) imts⟩
  | _ => none

def execution? (t : Toml) : Option (ExecutionConfig α) := do
  match ← t.section? ["mode", "threads", "concurrent_tasks", "point_source_weight", "pmf_views",
      "sanity_tolerance", "strict_sanity_check"] with
  | [mode, threads, count, factor, views, tolerance, strict] =>
    return ⟨← optional? mode? mode, ← optional? nat? threads, ← optional? nat? count,
      ← optional? real? factor, ← orElse? [] (list? text?) views, ← optional? real? tolerance,
      ← optional? bool? strict⟩
  | _ => none

end

end Toml

namespace Config

section

variable {α : Type} [Scalar α] [DecimalText α]

def ofDocument? (fields : List (String × Toml)) : Option (Config α) := do
  match ← (Toml.table fields).section? ["binning", "calculation", "execution"] with
  | [binning, request, execution] =>
    return ⟨← Toml.orElse? empty.binning Toml.binning? binning,
      ← Toml.orElse? empty.request Toml.request? request,
      ← Toml.orElse? empty.execution Toml.execution? execution⟩
  | _ => none

def read? (text : String) : Option (Config α) := do ofDocument? (← Toml.parse? text)

/-- A configuration from a text, checked. -/
def ofToml (text : String) : Except ConfigError (Config α) :=
  match (read? text : Option (Config α)) with
  | none => .error (.unparsable "<string>" none)
  | some c =>
    match c.validate with
    | .error e => .error e
    | .ok () => .ok c

/-! ### Writing -/

def realText (x : α) : String := Toml.layout.text x

def line (name value : String) : String := name ++ " = " ++ value ++ "\n"

/-- The line of a setting, if it is made. -/
def optionalLine {β : Type} (name : String) (f : β → String) : Option β → String
  | none => ""
  | some x => line name (f x)

/-- A list of values: one value stands on the line of its key, more stand on lines of their own. -/
def listText : List String → String
  | [] => "[]"
  | [x] => "[" ++ x ++ "]"
  | xs => "[\n" ++ String.join (xs.map fun x => "    " ++ x ++ ",\n") ++ "]"

/-- The greatest integer that a document can hold. -/
def maxInteger : Nat := UInt64.size / 2 - 1

/-- Whether every integer of the configuration can stand in a document. -/
def fits (c : Config α) : Bool :=
  [c.binning.epsilonBins, c.execution.threads, c.execution.taskCount].all fun n =>
    n.all (· ≤ maxInteger)

def binningText (b : BinningConfig α) : String :=
  "[binning]\n"
    ++ optionalLine "mag_bin_width" realText b.magWidth
    ++ optionalLine "distance_bin_width" realText b.distanceWidth
    ++ optionalLine "coordinate_bin_width" realText b.coordinateWidth
    ++ optionalLine "num_epsilon_bins" Nat.repr b.epsilonBins

def requestText (r : RequestConfig α) : String :=
  "[calculation]\n"
    ++ optionalLine "truncation_level" realText r.truncation
    ++ optionalLine "maximum_distance" realText r.maxDistance
    ++ optionalLine "investigation_time" realText r.time
    ++ line "poes_disagg" (listText (r.poes.map realText))
    ++ line "intensity_measure_types" (listText (r.imts.map Toml.quote))

def levelsText (levels : TreeMap String α) : String :=
  "[calculation.iml_disagg]\n"
    ++ String.join (levels.toList.map fun (imt, level) => line (Toml.key imt) (realText level))

def executionText (e : ExecutionConfig α) : String :=
  "[execution]\n"
    ++ optionalLine "mode" (fun m => Toml.quote m.name) e.mode
    ++ optionalLine "threads" Nat.repr e.threads
    ++ optionalLine "concurrent_tasks" Nat.repr e.taskCount
    ++ optionalLine "point_source_weight" realText e.pointFactor
    ++ line "pmf_views" (listText (e.views.map Toml.quote))
    ++ optionalLine "sanity_tolerance" realText e.tolerance
    ++ optionalLine "strict_sanity_check" (fun b => if b then "true" else "false") e.strict

def text (c : Config α) : String :=
  "\n".intercalate [binningText c.binning, requestText c.request, levelsText c.request.levels,
    executionText c.execution]

/-- The text of a configuration. An integer beyond 63 bits cannot be written. -/
def toToml (c : Config α) : Except ConfigError String :=
  if c.fits then .ok c.text else .error (.unparsable "<serialization>" none)

end

end Config

end SeismicHazard
