import SeismicHazard.Error
import SeismicHazard.Marginal

/-!
# The marginals of one result

* `Marginals`: the marginal distributions of a result, in the order in which they were asked for.
* `Marginals.aggregates`: the overall probability that each of them gives.
* `Marginals.combine`: two results about independent ruptures as one.
-/

namespace SeismicHazard

/-- The marginal distributions of a result. -/
structure Marginals (α : Type) where
  views : List (Marginal × Tensor α)

namespace Marginals

section

variable {α : Type}

/-- The first view of a kind. -/
def get? (m : Marginals α) (kind : Marginal) : Option (Tensor α) :=
  (m.views.find? (·.1 == kind)).map (·.2)

variable [Scalar α]

def ofJoint (kinds : List Marginal) (joint : Tensor α) : Marginals α :=
  let complements := joint.map Marginal.complement
  ⟨kinds.map fun kind => (kind, kind.ofComplement complements)⟩

/-- The overall probability that each view gives. -/
def aggregates (m : Marginals α) : List α := m.views.map fun v => anyOf v.2.toList

/-- The views of two results as one, pair by pair, up to the first pair of different kinds or shapes,
which is given with the text `site` about the result. -/
def combineViews (site : String) : List (Marginal × Tensor α) → List (Marginal × Tensor α) →
    List (Marginal × Tensor α) × Option (Error α)
  | (kind, s) :: rest, (other, t) :: others =>
    if h : kind = other ∧ s.shape = t.shape then
      let (combined, failure) := combineViews site rest others
      ((kind, s.zipWith eitherOf t h.2) :: combined, failure)
    else
      ((kind, s) :: rest, some (.shape (kind.name ++ " view for " ++ site) s.shape t.shape))
  | views, _ => (views, none)

/-- The marginals of two results as one. They must have the same kinds and shapes in the same order;
if they do not, the views in front of the first difference are still combined. -/
def combine (site : String) (m other : Marginals α) : Marginals α × Option (Error α) :=
  if m.views.length = other.views.length then
    let (views, failure) := combineViews site m.views other.views
    (⟨views⟩, failure)
  else
    (m, some (.shape ("number of PMF views for " ++ site) [m.views.length] [other.views.length]))

end

end Marginals

end SeismicHazard
