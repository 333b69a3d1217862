import SeismicHazard.Number.Double
import SeismicHazard.Result.Reduction
import SeismicHazard.Task.Collection

/-!
# Computing the results of a task

* `Task.computeWith`: the marginals of every target at every site that the task reaches.
* `Task.compute`: the same with the fingerprints that are in use.
* `fingerprint`: probabilities by their bit patterns.
-/

namespace SeismicHazard

open Std (TreeMap)

section

variable {α : Type}

def fingerprint [BitPattern α] (xs : List α) : List UInt64 := xs.map BitPattern.toBits

namespace Task

section

variable [Scalar α]

def key (t : Task α) (site : Nat) (target : Target α) (level : α) : ResultKey α :=
  ⟨site, target.realization, target.poe, target.imt, level, t.setting.regions⟩

variable {φ : Type} [BEq φ]

/-- The marginals of one of the lists of probabilities at a site. If the levels are given, those that
were met before at the site are not arranged again. -/
def marginalsOf (t : Task α) (print : List α → φ) (make : List α → Except (Error α) (Marginals α))
    (arrays : List (List α)) (i : Fin arrays.length) (cache : ArrangementCache φ α arrays.length) :
    Except (Error α) (Marginals α) × ArrangementCache φ α arrays.length :=
  if t.setting.fixedLevels then cache.getOrArrange (m := Id) print make arrays i
  else (make (arrays.get i), cache)

variable [TotalOrder α]

def addTargets (t : Task α) (print : List α → φ) (site : Nat)
    (make : List α → Except (Error α) (Marginals α)) (arrays : List (List α)) :
    List ((Target α × Option α) × Fin arrays.length) → ArrangementCache φ α arrays.length →
      Results α → Except (Error α) (Results α)
  | [], _, results => .ok results
  | ((_, none), _) :: rest, cache, results => addTargets t print site make arrays rest cache results
  | ((target, some level), i) :: rest, cache, results => do
    let (marginals, cache) := t.marginalsOf print make arrays i cache
    match results.add (t.key site target level) (← marginals) with
    | (results, none) => addTargets t print site make arrays rest cache results
    | (_, some e) => .error e

variable [Elementary α]

def addSite (t : Task α) (print : List α → φ) (results : Results α) (site : Nat)
    (data : SiteData α) : Except (Error α) (Results α) :=
  match t.setting.grids[site]?, t.work.levels[site]? with
  | some grid, some levels =>
    let make := arrange site grid t.setting.regions.length t.setting.marginals data.ruptures
    let targets := (t.leveled levels).zip (List.finRange data.pnes.length)
    t.addTargets print site make data.pnes targets .empty results
  | _, _ => .ok results

/-- The results of a task where arrangements are found by the given fingerprints. A target that occurs
several times under one key has its results combined. -/
def computeWith (t : Task α) (print : List α → φ) : Except (Error α) (PartialResult α) := do
  let data ← t.collect
  let results ← data.toList.foldlM (fun results (site, d) => t.addSite print results site d) ∅
  return ⟨t.number, results⟩

end

/-- The results of a task. -/
def compute [Scalar α] [Elementary α] [TotalOrder α] [BitPattern α] (t : Task α) :
    Except (Error α) (PartialResult α) :=
  t.computeWith fingerprint

end Task

end

end SeismicHazard
