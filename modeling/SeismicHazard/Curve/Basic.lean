import SeismicHazard.BinarySearch
import SeismicHazard.Error
import SeismicHazard.Neighbours
import SeismicHazard.Number.Scalar

/-!
# Hazard curves

A hazard curve gives the probability that the ground motion exceeds each of several levels.

* `Curve.make`: levels and probabilities, checked.
* `Curve.levelAt`: the level that is exceeded with a given probability.
-/

namespace SeismicHazard

/-- Levels of ground motion and the probabilities of exceeding them. -/
structure Curve (α : Type) where
  levels : List α
  poes : List α

namespace Curve

section

variable {α : Type} [Scalar α]

/-- The curve through the given points. A curve has as many probabilities as levels and at least one;
no level is at or above the next one, and every probability lies between zero and one. -/
def make (levels poes : List α) : Except (Error α) (Curve α) :=
  if levels.length ≠ poes.length ∨ levels = [] then
    .error (.input (.curveLengths levels.length poes.length))
  else if anyNeighbours (fun a b => decide (b ≤ a)) levels then .error (.input .curveLevels)
  else if poes.any fun p => !(decide (0 ≤ p) && decide (p ≤ 1)) then
    .error (.input .curveProbabilities)
  else .ok ⟨levels, poes⟩

/-- The greatest probability of the curve, at least zero. -/
def maxPoe (c : Curve α) : α := c.poes.foldl Scalar.max 0

def isZero (c : Curve α) : Bool := c.poes.all (· == 0)

/-- The value at `x` of the line through two points, that of the first point if they have the same
abscissa. -/
def onLine (x x₀ x₁ y₀ y₁ : α) : α :=
  if x₁ == x₀ then y₀ else y₀ + (x - x₀) * (y₁ - y₀) / (x₁ - x₀)

/-- The level that is exceeded with probability `poe`: along the curve from its last point to its
first one, between the last probability that is not above `poe` and the next one. A probability
beyond an end of the curve gives the level of that end. -/
def levelAt (c : Curve α) (poe : α) : α :=
  let xs := c.poes.reverse
  let ys := c.levels.reverse
  match xs.head?, ys.head?, xs.getLast?, ys.getLast? with
  | some xFirst, some yFirst, some xLast, some yLast =>
    if poe ≤ xFirst then yFirst
    else if xLast ≤ poe then yLast
    else
      let j := partitionPoint (fun x => decide (x ≤ poe)) xs
      match xs[j - 1]?, xs[j]?, ys[j - 1]?, ys[j]? with
      | some x₀, some x₁, some y₀, some y₁ => onLine poe x₀ x₁ y₀ y₁
      | _, _, _, _ => yFirst
  | _, _, _, _ => 0

end

end Curve

end SeismicHazard
