import SeismicHazard.Error
import SeismicHazard.Number.Span

/-!
# Magnitude recurrence

How often a source ruptures, by magnitude bin.

* `Recurrence`: given rates, or a Gutenberg-Richter law between two magnitudes.
* `Recurrence.fault?`: why a recurrence makes no sense.
* `Recurrence.rates`: the yearly rate of every bin.
-/

namespace SeismicHazard

/-- The yearly rates of ruptures by magnitude. -/
inductive Recurrence (α : Type) where
  /-- Rates of bins whose centres start at `minMag` and follow every `width`. -/
  | binned (minMag width : α) (rates : List α)
  /-- The law that `10 ^ (a - b * m)` ruptures a year exceed magnitude `m`, between `minMag` and
  `maxMag`. -/
  | truncated (a b minMag maxMag width : α)

namespace Recurrence

section

variable {α : Type}

def width : Recurrence α → α
  | binned _ w _ => w
  | truncated _ _ _ _ w => w

variable [Scalar α]

def fault? : Recurrence α → Option (BadInput α)
  | binned _ w rates =>
    if ¬ 0 < w ∨ rates = [] then some .binnedRates
    else if rates.any fun r => !decide (0 ≤ r) then some .negativeRate
    else none
  | truncated _ _ lo hi w =>
    if ¬ 0 < w ∨ ¬ lo < hi then some (.truncatedRange lo hi w) else none

/-- The number of magnitude bins; a law has the whole number nearest to its range over the width, and
at least one. -/
def numBins : Recurrence α → Nat
  | binned _ _ rates => rates.length
  | truncated _ _ lo hi w => (Max.max 1 (Scalar.round ((hi - lo) / w))).toNat

variable [Elementary α]

/-- The rate at which magnitude `m` is exceeded under the law with parameters `a` and `b`. -/
def exceedanceRate (a b m : α) : α := Elementary.powTen (a - b * m)

def rates : Recurrence α → List (α × α)
  | binned minMag w rates => rates.mapIdx fun i r => (minMag + Scalar.ofNat i * w, r)
  | r@(truncated a b lo _ w) =>
    (List.range r.numBins).map fun i =>
      let mag := lo + (Scalar.ofNat i + Scalar.ratio 1 2) * w
      let half := w / Scalar.ofNat 2
      (mag, exceedanceRate a b (mag - half) - exceedanceRate a b (mag + half))

def positiveRates (r : Recurrence α) : List (α × α) := r.rates.filter fun p => decide (0 < p.2)

/-- The magnitudes of the first and of the last bin. -/
def magnitudes (r : Recurrence α) : Span α :=
  match r.rates.head?, r.rates.getLast? with
  | some first, some last => ⟨first.1, last.1⟩
  | _, _ => ⟨0, 0⟩

end

end Recurrence

end SeismicHazard
