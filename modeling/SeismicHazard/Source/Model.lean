import SeismicHazard.Source.Basic
import Std.Data.TreeSet

/-!
# Source models

A source model is one branch of the logic tree of sources. Its sources come in groups that share a
tectonic region type, and with it the assignment of ground-motion models.
-/

namespace SeismicHazard

/-- Sources that share a tectonic region type. -/
structure SourceGroup (α : Type) where
  id : Nat
  region : String
  sources : List (Source α)

/-- A branch of the logic tree of sources. -/
structure SourceModel (α : Type) where
  ordinal : Nat
  name : String
  groups : List (SourceGroup α)

def SourceGroup.magnitudes {α : Type} [Scalar α] [Elementary α] (g : SourceGroup α) :
    Option (Span α) :=
  Span.unionAll (g.sources.map (·.magnitudes))

namespace SourceModel

section

variable {α : Type}

def allSources (models : List (SourceModel α)) : List (Source α) :=
  models.flatMap fun m => m.groups.flatMap (·.sources)

/-- The tectonic region types of the models, each once, in ascending order. -/
def regions (models : List (SourceModel α)) : List String :=
  (Std.TreeSet.ofList (models.flatMap fun m => m.groups.map (·.region))).toList

def magnitudes [Scalar α] [Elementary α] (models : List (SourceModel α)) : Option (Span α) :=
  Span.unionAll (models.flatMap fun m => m.groups.filterMap (·.magnitudes))

end

end SourceModel

end SeismicHazard
