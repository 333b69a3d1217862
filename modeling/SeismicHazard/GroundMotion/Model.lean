import SeismicHazard.GroundMotion.Scenario
import Std.Data.TreeMap

/-!
# Ground-motion models

A ground-motion model gives the probability that a level of ground motion is exceeded, one value for
every epsilon bin. Nothing else is known about it here.

* `GroundMotionModel`: a named model.
* `ModelLibrary`: the models of a calculation, by name.
* `RegionModels`: the models that the realizations name for a tectonic region type.
-/

namespace SeismicHazard

open Std (TreeMap)

/-- A question to a ground-motion model: how probable is it that the intensity measure type exceeds
the level in each epsilon bin? -/
structure ExceedanceQuery (α : Type) where
  imt : String
  level : α
  /-- The number of standard deviations at which the distribution of the motion is cut. -/
  truncation : α
  epsilonEdges : List α

structure GroundMotionModel (α : Type) where
  name : String
  exceedance : Scenario α → ExceedanceQuery α → Except (Error α) (List α)

/-- A model that gives the same probabilities to every question. -/
def GroundMotionModel.constant {α : Type} (name : String) (poes : List α) : GroundMotionModel α :=
  ⟨name, fun _ _ => .ok poes⟩

structure ModelLibrary (α : Type) where
  byName : TreeMap String (GroundMotionModel α)

namespace ModelLibrary

variable {α : Type}

/-- The library of the given models; of two models with one name it holds the later one. -/
def ofList (models : List (GroundMotionModel α)) : ModelLibrary α :=
  ⟨models.foldl (fun found m => found.insert m.name m) ∅⟩

def size (l : ModelLibrary α) : Nat := l.byName.size

def get (l : ModelLibrary α) (name : String) : Except (Error α) (GroundMotionModel α) :=
  match l.byName[name]? with
  | some m => .ok m
  | none => .error (.unknownModel name)

end ModelLibrary

structure RegionModels (α : Type) where
  region : String
  library : ModelLibrary α

namespace RegionModels

variable {α : Type}

/-- The models with the given names; the first name without a model is an error. -/
def make (region : String) (names : List String) (l : ModelLibrary α) :
    Except (Error α) (RegionModels α) := do
  let models ← names.mapM fun name => do return (name, ← l.get name)
  return ⟨region, ⟨TreeMap.ofList models⟩⟩

def get (m : RegionModels α) (name : String) : Except (Error α) (GroundMotionModel α) :=
  m.library.get name

end RegionModels

end SeismicHazard
