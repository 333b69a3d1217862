import SeismicHazard.Error
import Std.Data.TreeMap

/-!
# The logic tree

Every realization of the logic tree belongs to one source model and names a ground-motion model for
each tectonic region type.

* `LogicTree.ofModel`: the realizations of a source model.
* `LogicTree.byGroundMotion`: the realizations of a source model, by the ground-motion model that
  they name for a region.
-/

namespace SeismicHazard

open Std (TreeMap)

/-- An end-branch of the logic tree. -/
structure Realization (α : Type) where
  ordinal : Nat
  sourceModel : Nat
  weight : α
  /-- The name of the ground-motion model for each tectonic region type. -/
  groundMotion : TreeMap String String

structure LogicTree (α : Type) where
  realizations : List (Realization α)

namespace LogicTree

section

variable {α : Type}

def ofModel (t : LogicTree α) (sourceModel : Nat) : List (Realization α) :=
  t.realizations.filter (·.sourceModel == sourceModel)

/-- One more ordinal under the name of a ground-motion model, after those that are there. -/
def addOrdinal (groups : TreeMap String (List Nat)) (name : String) (ordinal : Nat) :
    TreeMap String (List Nat) :=
  groups.alter name fun found => some (found.getD [] ++ [ordinal])

/-- The ordinals of the realizations of a source model under the ground-motion model that they name
for `region`. The first realization that names none is an error. -/
def byGroundMotion (t : LogicTree α) (region : String) (sourceModel : Nat) :
    Except (Error α) (TreeMap String (List Nat)) :=
  (t.ofModel sourceModel).foldlM (fun groups r =>
      match r.groundMotion[region]? with
      | some name => .ok (addOrdinal groups name r.ordinal)
      | none => .error (.input (.noModelFor r.ordinal region)))
    ∅

end

end LogicTree

end SeismicHazard
