import SeismicHazard.Error
import SeismicHazard.Neighbours
import SeismicHazard.Number.Scalar

/-!
# Bin edges of a site

A grid holds the edges of the bins of a site along the five numeric axes. The axis of the tectonic
region types has one bin for each type.

* `Grid.shape`: the extents of the joint distribution.
* `Grid.validate`: whether every axis has at least one bin and its edges ascend.
-/

namespace SeismicHazard

/-- The edges of the bins along the numeric axes. -/
structure Grid (α : Type) where
  magnitude : List α
  distance : List α
  longitude : List α
  latitude : List α
  epsilon : List α

namespace Grid

section

variable {α : Type}

def axes (g : Grid α) : List (Axis × List α) :=
  [(.magnitude, g.magnitude), (.distance, g.distance), (.longitude, g.longitude),
    (.latitude, g.latitude), (.epsilon, g.epsilon)]

def numBins (g : Grid α) : List Nat := g.axes.map fun p => p.2.length - 1

def epsilonBins (g : Grid α) : Nat := g.epsilon.length - 1

/-- The extents of the joint distribution with `numRegions` tectonic region types. -/
def shape (g : Grid α) (numRegions : Nat) : List Nat := g.numBins ++ [numRegions]

variable [Scalar α]

/-- Why edges do not make bins, if they do not: there are too few of them, or one is not less than
the next. -/
def edgesFault? (axis : Axis) (edges : List α) : Option (BadInput α) :=
  if edges.length < 2 then some (.tooFewEdges axis edges.length)
  else if anyNeighbours (fun a b => !decide (a < b)) edges then
    some (.edgesNotIncreasing axis edges)
  else none

def fault? (g : Grid α) : Option (BadInput α) :=
  g.axes.findSome? fun (axis, edges) => edgesFault? axis edges

def validate (g : Grid α) : Except (Error α) Unit :=
  match g.fault? with
  | some fault => .error (.input fault)
  | none => .ok ()

end

end Grid

end SeismicHazard
