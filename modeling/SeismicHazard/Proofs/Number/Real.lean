import Mathlib
import SeismicHazard.Number.Scalar

/-!
# Real numbers

The functions beyond arithmetic as the functions of real numbers that they stand for.

* `RealFunctions.powTen_strictMono`, `RealFunctions.ln_monotoneOn`, `RealFunctions.normalCdf_strictMono`:
  powers of ten, the logarithm and the normal distribution function ascend.
-/

namespace SeismicHazard.RealFunctions

open ProbabilityTheory MeasureTheory

/-- The real functions; distances are in degrees, along meridians and parallels. -/
noncomputable scoped instance : Elementary ℝ where
  exp := Real.exp
  ln := Real.log
  powTen x := (10 : ℕ) ^ x
  sqrt := Real.sqrt
  normalCdf := cdf (gaussianReal 0 1)
  distance a b c d := |a - c| + |b - d|

theorem powTen_strictMono : StrictMono (Elementary.powTen : ℝ → ℝ) := fun _ _ h =>
  Real.rpow_lt_rpow_of_exponent_lt (by norm_num) h

theorem ln_monotoneOn : MonotoneOn (Elementary.ln : ℝ → ℝ) (Set.Ioi 0) :=
  Real.strictMonoOn_log.monotoneOn

theorem normalCdf_monotone : Monotone (Elementary.normalCdf : ℝ → ℝ) := monotone_cdf _

/-- Between two numbers there is a chance for a normal variable to lie. -/
theorem normalCdf_strictMono : StrictMono (Elementary.normalCdf : ℝ → ℝ) := by
  intro x y hxy
  refine (normalCdf_monotone hxy.le).lt_of_ne fun heq => ?_
  have hmeasure : gaussianReal 0 1 (Set.Ioc x y) = 0 := by
    rw [← measure_cdf (gaussianReal 0 1), StieltjesFunction.measure_Ioc]
    exact ENNReal.ofReal_eq_zero.2 (sub_nonpos.2 heq.ge)
  have hvolume : volume (Set.Ioc x y) = 0 :=
    gaussianReal_absolutelyContinuous' 0 one_ne_zero hmeasure
  rw [Real.volume_Ioc, ENNReal.ofReal_eq_zero] at hvolume
  linarith

end SeismicHazard.RealFunctions
