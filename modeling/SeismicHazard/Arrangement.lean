import SeismicHazard.BinarySearch
import SeismicHazard.Grid.Basic
import SeismicHazard.Result.Marginals

/-!
# Ruptures in bins

The joint distribution of a site has a cell for every combination of bins. Every rupture falls into
one bin along each axis but that of epsilon, and contributes to each epsilon bin the probability that
it leads to no exceedance there. A cell holds the complement of the product of its contributions.

* `locate`: the bin of a value.
* `arrangeJoint`: the joint distribution.
* `arrange`: its marginals.
-/

namespace SeismicHazard

/-- A rupture as it counts for a site: its coordinates and the index of its tectonic region type. -/
structure SiteRupture (α : Type) where
  magnitude : α
  distance : α
  longitude : α
  latitude : α
  region : Nat

section

variable {α : Type} [Scalar α]

/-- What zero divided by zero is. -/
def undefined : α := 0 / 0

/-- The bin of a value: the last edge belongs to the last bin, any other edge to the bin it begins.
Values beyond the edges have none. -/
def locate? (edges : List α) (value : α) : Option Nat :=
  match edges with
  | low :: _ :: _ =>
    let high := edges.getLast?.getD low
    if low ≤ value ∧ value ≤ high then
      if value == high then some (edges.length - 2)
      else some (partitionPoint (fun e => decide (e ≤ value)) edges - 1)
    else none
  | _ => none

def locate (site : Nat) (axis : Axis) (edges : List α) (value : α) : Except (Error α) Nat :=
  match locate? edges value with
  | some i => .ok i
  | none =>
    .error (.outOfRange site axis value (edges.head?.getD undefined)
      (edges.getLast?.getD undefined))

/-- A longitude in the frame of the edges: one that lies west of them is moved east by a full turn if
it then does not lie east of them. -/
def toFrame (edges : List α) (lon : α) : α :=
  match edges.head?, edges.getLast? with
  | some first, some last =>
    let turned := lon + Scalar.ofNat 360
    if lon < first ∧ turned ≤ last then turned else lon
  | _, _ => lon

/-- The bins of a rupture: magnitude, distance, longitude, latitude and region. -/
def bins (site : Nat) (g : Grid α) (numRegions : Nat) (r : SiteRupture α) :
    Except (Error α) (Nat × Nat × Nat × Nat × Nat) := do
  let m ← locate site .magnitude g.magnitude r.magnitude
  let d ← locate site .distance g.distance r.distance
  let lo ← locate site .longitude g.longitude (toFrame g.longitude r.longitude)
  let la ← locate site .latitude g.latitude r.latitude
  if r.region < numRegions then return (m, d, lo, la, r.region)
  else
    .error (.outOfRange site .region (Scalar.ofNat r.region) 0 (Scalar.ofNat numRegions))

/-- The places of the cells of a rupture in the joint distribution, by epsilon bin, each with the
factor it contributes. -/
def cellFactors (shape : List Nat) (at_ : Nat × Nat × Nat × Nat × Nat) (pnes : List α) :
    List (Nat × α) :=
  let (m, d, lo, la, t) := at_
  pnes.mapIdx fun e pne => (Tensor.position shape [m, d, lo, la, e, t], pne)

def multiplyInto (t : Tensor α) (factors : List (Nat × α)) : Tensor α :=
  factors.foldl (fun t (i, x) => t.modify i (· * x)) t

/-- The joint distribution of the ruptures of a site with their probabilities of no exceedance, rupture
by rupture and for each of them by epsilon bin. -/
def arrangeJoint (site : Nat) (g : Grid α) (numRegions : Nat) (ruptures : List (SiteRupture α))
    (pnes : List α) : Except (Error α) (Tensor α) := do
  if pnes.length ≠ ruptures.length * g.epsilonBins then
    throw (.shape ("PNEs of site " ++ site.repr) [ruptures.length, g.epsilonBins] [pnes.length])
  let shape := g.shape numRegions
  let places ← ruptures.mapM (bins site g numRegions)
  let rows := Tensor.chunks g.epsilonBins ruptures.length pnes
  let factors := (places.zip rows).flatMap fun (at_, row) => cellFactors shape at_ row
  return (multiplyInto (.fill shape 1) factors).map Marginal.complement

def arrange (site : Nat) (g : Grid α) (numRegions : Nat) (kinds : List Marginal)
    (ruptures : List (SiteRupture α)) (pnes : List α) : Except (Error α) (Marginals α) :=
  return Marginals.ofJoint kinds (← arrangeJoint site g numRegions ruptures pnes)

end

/-! ### Arrangements that are kept -/

/-- Arrangements that were made of some of `n` lists of probabilities. They are found by the fingerprint
of the probabilities, and each is kept with the place of the list that it was made from. -/
structure ArrangementCache (φ α : Type) (n : Nat) where
  buckets : List (φ × List (Fin n × Marginals α))

namespace ArrangementCache

section

variable {φ α : Type} {n : Nat}

def empty : ArrangementCache φ α n := ⟨[]⟩

def size (c : ArrangementCache φ α n) : Nat := (c.buckets.flatMap (·.2)).length

variable [BEq φ]

/-- What is kept under a fingerprint. -/
def bucket (c : ArrangementCache φ α n) (print : φ) : List (Fin n × Marginals α) :=
  (c.buckets.lookup print).getD []

/-- The buckets with one of them changed, which is empty before if there is none yet. -/
def changeBucket (print : φ) (f : List (Fin n × Marginals α) → List (Fin n × Marginals α)) :
    List (φ × List (Fin n × Marginals α)) → List (φ × List (Fin n × Marginals α))
  | [] => [(print, f [])]
  | (p, kept) :: rest =>
    if print == p then (p, f kept) :: rest else (p, kept) :: changeBucket print f rest

/-- The cache with a bucket for a fingerprint, which may stay empty. -/
def openBucket (c : ArrangementCache φ α n) (print : φ) : ArrangementCache φ α n :=
  ⟨changeBucket print id c.buckets⟩

def keep (c : ArrangementCache φ α n) (print : φ) (i : Fin n) (m : Marginals α) :
    ArrangementCache φ α n :=
  ⟨changeBucket print (· ++ [(i, m)]) c.buckets⟩

/-- The arrangement of one of the lists of probabilities, made now if none was made of equal ones
before, and the cache that holds it. Equal fingerprints only narrow the search, and a failure is not
kept. Whatever else `make` does, such as to count, is done whenever something is made. -/
def getOrArrange {m : Type → Type} [Monad m] [BEq α] (fingerprint : List α → φ)
    (make : List α → m (Except (Error α) (Marginals α))) (arrays : List (List α))
    (i : Fin arrays.length) (c : ArrangementCache φ α arrays.length) :
    m (Except (Error α) (Marginals α) × ArrangementCache φ α arrays.length) := do
  let print := fingerprint (arrays.get i)
  let c := c.openBucket print
  match (c.bucket print).find? fun e => arrays.get e.1 == arrays.get i with
  | some (_, kept) => return (.ok kept, c)
  | none =>
    match ← make (arrays.get i) with
    | .ok made => return (.ok made, c.keep print i made)
    | .error e => return (.error e, c)

end

end ArrangementCache

end SeismicHazard
