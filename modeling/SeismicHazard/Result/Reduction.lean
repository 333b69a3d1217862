import SeismicHazard.Result.Key
import SeismicHazard.Result.Marginals
import Std.Data.TreeMap

/-!
# Merging partial results

Every task gives results for some keys. Merging combines the results of tasks that share a key.

* `Results`: marginals by key.
* `Results.add`: one more result, combined with what is there under its key.
* `Reduction`: what has been merged so far, and how many tasks.
* `Reduction.merge`: the results of one more task.
-/

namespace SeismicHazard

open Std (TreeMap)

/-- Marginals by key, in the order of the keys. -/
abbrev Results (α : Type) [TotalOrder α] : Type :=
  TreeMap (ResultKey α) (Marginals α) ResultKey.compare

structure PartialResult (α : Type) [TotalOrder α] where
  task : Nat
  results : Results α

/-- The results merged so far. -/
structure Reduction (α : Type) [TotalOrder α] where
  results : Results α
  /-- The number of tasks whose results were merged as a whole. -/
  merged : Nat

namespace Results

variable {α : Type} [Scalar α] [TotalOrder α]

/-- One more result. If it does not agree in shape with what is there under its key, only the views
in front of the difference are combined. -/
def add (r : Results α) (key : ResultKey α) (m : Marginals α) : Results α × Option (Error α) :=
  match r[key]? with
  | some found =>
    let (combined, failure) := found.combine key.place m
    (r.insert key combined, failure)
  | none => (r.insert key m, none)

/-- Several more results, up to the first that does not agree in shape. -/
def addAll (r : Results α) : List (ResultKey α × Marginals α) → Results α × Option (Error α)
  | [] => (r, none)
  | (key, m) :: rest =>
    match r.add key m with
    | (r, some e) => (r, some e)
    | (r, none) => r.addAll rest

end Results

namespace Reduction

section

variable {α : Type} [TotalOrder α]

def empty : Reduction α := ⟨∅, 0⟩

def size (r : Reduction α) : Nat := r.results.size

variable [Scalar α]

/-- Merges the results of a task, in the order of their keys. A disagreement in shape ends the merge;
what was merged before it stays. -/
def merge (r : Reduction α) (p : PartialResult α) : Reduction α × Option (Error α) :=
  match r.results.addAll p.results.toList with
  | (results, none) => (⟨results, r.merged + 1⟩, none)
  | (results, some e) => (⟨results, r.merged⟩, some e)

end

end Reduction

end SeismicHazard
