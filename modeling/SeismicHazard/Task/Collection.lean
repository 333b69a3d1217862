import SeismicHazard.Arrangement
import SeismicHazard.Task.Basic

/-!
# Collecting the ruptures of a task

For every rupture of a task and every site that it counts for, the coordinates of the rupture and, for
each target, its probabilities of no exceedance by epsilon bin.

* `SiteData`: the ruptures of one site in columns, with one column of probabilities for each target.
* `Task.addPnes`: the probabilities of one rupture at one site, in the columns of the targets.
* `Task.addRupture`: one rupture at one site.
* `Task.addSource`: all ruptures of a source at all of its sites, rupture by rupture.
* `Task.collect`: the data of all sites.
-/

namespace SeismicHazard

open Std (TreeMap)

/-- The ruptures at a site, column by column. For each target their probabilities of no exceedance
follow each other, by epsilon bin within a rupture. -/
structure SiteData (α : Type) where
  magnitudes : List α
  distances : List α
  longitudes : List α
  latitudes : List α
  /-- The indices of the tectonic region types. -/
  regions : List Nat
  pnes : List (List α)

namespace SiteData

variable {α : Type}

/-- No ruptures, and an empty column for each of a number of targets. -/
def ofTargets (numTargets : Nat) : SiteData α :=
  ⟨[], [], [], [], [], List.replicate numTargets []⟩

/-- One more rupture. Its probabilities are still missing. -/
def push (d : SiteData α) (r : SiteRupture α) : SiteData α :=
  { d with
    magnitudes := d.magnitudes ++ [r.magnitude]
    distances := d.distances ++ [r.distance]
    longitudes := d.longitudes ++ [r.longitude]
    latitudes := d.latitudes ++ [r.latitude]
    regions := d.regions ++ [r.region] }

/-- More probabilities for the target with the given index. -/
def extend (d : SiteData α) (target : Nat) (pnes : List α) : SiteData α :=
  { d with pnes := d.pnes.modify target (· ++ pnes) }

/-- The number of ruptures. -/
def length (d : SiteData α) : Nat := d.magnitudes.length

/-- What stands in one row of the columns. -/
def rupture? (d : SiteData α) (row : Nat) : Option (SiteRupture α) := do
  return ⟨← d.magnitudes[row]?, ← d.distances[row]?, ← d.longitudes[row]?, ← d.latitudes[row]?,
    ← d.regions[row]?⟩

/-- The ruptures row by row. -/
def ruptures (d : SiteData α) : List (SiteRupture α) := (List.range d.length).filterMap d.rupture?

end SiteData

/-- What a ground-motion model was asked and the probabilities of no exceedance it led to. -/
structure Remembered (α : Type) where
  model : String
  imt : String
  level : α
  pnes : List α

section

variable {α : Type}

def remembered? [TotalOrder α] (memo : List (Remembered α)) (t : Target α) (level : α) :
    Option (List α) :=
  (memo.find? fun m =>
    m.model == t.model && m.imt == t.imt && TotalOrder.cmp m.level level == .eq).map (·.pnes)

namespace Task

variable [Scalar α] [Elementary α]

def query (t : Task α) (target : Target α) (level : α) : ExceedanceQuery α :=
  ⟨target.imt, level, t.setting.truncation, t.setting.epsilonEdges⟩

/-- The probabilities that a rupture leads to no exceedance of the level of a target, by epsilon
bin. -/
def pnesAt (t : Task α) (source : Source α) (r : Rupture α) (s : Scenario α) (target : Target α)
    (level : α) : Except (Error α) (List α) := do
  let model ← t.work.models.get target.model
  let poes ← (model.exceedance s (t.query target level)).mapError (.sourceFailed source.id)
  if poes.length ≠ t.setting.epsilonBins then
    throw (.shape ("epsilon PoEs from " ++ target.model) [t.setting.epsilonBins] [poes.length])
  return poes.map (r.nonExceedance · t.setting.time)

variable [TotalOrder α]

/-- The data with the probabilities of a rupture for the targets from the `i`-th on, which are given
with their levels. A target without a level is not exceeded; a model is asked only once for a measure
and a level. -/
def addPnes (t : Task α) (source : Source α) (r : Rupture α) (s : Scenario α) :
    (i : Nat) → List (Remembered α) → List (Target α × Option α) → SiteData α →
      Except (Error α) (SiteData α)
  | _, _, [], data => .ok data
  | i, memo, (_, none) :: rest, data =>
    addPnes t source r s (i + 1) memo rest (data.extend i (List.replicate t.setting.epsilonBins 1))
  | i, memo, (target, some level) :: rest, data =>
    match remembered? memo target level with
    | some pnes => addPnes t source r s (i + 1) memo rest (data.extend i pnes)
    | none => do
      let pnes ← pnesAt t source r s target level
      let memo := ⟨target.model, target.imt, level, pnes⟩ :: memo
      addPnes t source r s (i + 1) memo rest (data.extend i pnes)

def leveled (t : Task α) (levels : List (Option α)) : List (Target α × Option α) :=
  t.work.targets.mapIdx fun i target => (target, levels[i]?.join)

/-- What was found with a rupture at one more site, if it lies within the integration distance and the
site has levels. -/
def addRupture (t : Task α) (source : Source α) (region : Nat) (r : Rupture α)
    (found : TreeMap Nat (SiteData α)) (site : Site α) :
    Except (Error α) (TreeMap Nat (SiteData α)) :=
  match Scenario.ofRupture? r site, t.work.levels[site.id]? with
  | some s, some levels => do
    let data := found.getD site.id (.ofTargets t.work.targets.length)
    let data := data.push ⟨r.magnitude, s.horizontal, s.node.lon, s.node.lat, region⟩
    return found.insert site.id (← t.addPnes source r s 0 [] (t.leveled levels) data)
  | _, _ => .ok found

def sitesOf (t : Task α) (source : Source α) : List (Site α) :=
  (source.sitesInReach t.setting.sites).filter fun site => t.setting.grids.contains site.id

/-- What was found with the ruptures of one more source at its sites. -/
def addSource (t : Task α) (found : TreeMap Nat (SiteData α)) (source : Source α) :
    Except (Error α) (TreeMap Nat (SiteData α)) :=
  match t.setting.regionIndex? source.region with
  | none => .error (.sourceRegion source.id source.region)
  | some region =>
    match t.sitesOf source with
    | [] => .ok found
    | sites =>
      source.ruptures.foldlM (fun found r => sites.foldlM (t.addRupture source region r) found) found

/-- The data of the sites that a rupture of the task counts for. -/
def collect (t : Task α) : Except (Error α) (TreeMap Nat (SiteData α)) :=
  t.work.sources.foldlM t.addSource ∅

end Task

end

end SeismicHazard
