import Mathlib.Tactic.Linarith
import SeismicHazard.GroundMotion.Lognormal
import SeismicHazard.Proofs.Grid.Edges

/-!
# Epsilon bins of a lognormal model

However the epsilon axis is cut into bins, the probabilities of exceedance in the bins of a lognormal
model add up to the probability of exceedance over the whole truncated distribution. In no bin has a
higher level a greater probability.

* `LognormalModel.truncatedExceedance`: that probability.
* `LognormalModel.sum_binMasses`: the sum over the bins between ascending edges.
* `LognormalModel.sum_exceedance`: the sum of the answers of a model.
* `LognormalModel.exceedance_eq`, `LognormalModel.exists_exceedance`: when a model answers, and what.
* `MonotoneLaws`: functions that preserve the order.
* `LognormalModel.exceedance_anti`: the answers do not grow with the level.
* `ModelLibrary.IsLognormal`: libraries of lognormal models only.
-/

namespace SeismicHazard

namespace LognormalModel

section

variable {α : Type} [Field α] [LinearOrder α] [FloorRing α] [Elementary α]

/-- The probability that epsilon exceeds `threshold`, for a standard normal distribution that is cut
at `truncation` to both sides. -/
def truncatedExceedance (truncation threshold : α) : α :=
  (Elementary.normalCdf truncation -
      Elementary.normalCdf (Max.max (-truncation) (Min.min threshold truncation))) /
    truncatedMass truncation

/-- The probability that the motion exceeds a level, if the model has coefficients for the intensity
measure type and the level is positive. -/
def exceedanceOf? (m : LognormalModel α) (truncation : α) (s : Scenario α) (imt : String)
    (level : α) : Option α :=
  if 0 < level then
    m.coefficients[imt]?.map fun c =>
      truncatedExceedance truncation ((Elementary.ln level - c.mean s) / c.sigma)
  else none

/-- The mass of a bin reaches from the threshold on, if that lies within the bin. -/
theorem binMass_eq {lo hi : α} (h : lo ≤ hi) (mass threshold : α) :
    binMass mass threshold lo hi =
      (Elementary.normalCdf hi - Elementary.normalCdf (Max.max lo (Min.min threshold hi))) /
        mass := by
  simp only [binMass, Scalar.max_eq]
  by_cases hbelow : threshold ≤ hi
  · rw [min_eq_left hbelow]
    split
    · next hle =>
      rw [le_antisymm hle (max_le h hbelow), sub_self, zero_div]
    · rfl
  · have habove : hi ≤ Max.max lo threshold := (not_le.1 hbelow).le.trans (le_max_right _ _)
    rw [if_pos habove, min_eq_right (not_le.1 hbelow).le, max_eq_right h, sub_self, zero_div]

/-- The masses of two neighbouring bins are that of both together. -/
theorem binMass_add {lo mid hi : α} (h : lo ≤ mid) (h' : mid ≤ hi) (mass threshold : α) :
    binMass mass threshold lo mid + binMass mass threshold mid hi =
      binMass mass threshold lo hi := by
  rw [binMass_eq h, binMass_eq h', binMass_eq (h.trans h'), ← add_div]
  congr 1
  rcases le_total threshold mid with hbelow | habove
  · rw [min_eq_left hbelow, min_eq_left (hbelow.trans h'), max_eq_left hbelow]
    exact sub_add_sub_cancel' _ _ _
  · have hlower : Max.max mid (Min.min threshold hi) = Min.min threshold hi :=
      max_eq_right (le_min habove h')
    have hlower' : Max.max lo (Min.min threshold hi) = Min.min threshold hi :=
      max_eq_right (h.trans (le_min habove h'))
    rw [min_eq_right habove, max_eq_right h, hlower, hlower', sub_self, zero_add]

/-- The masses of all bins are that of the range between the outermost edges. -/
theorem sum_binMasses (mass threshold : α) {edges : List α} (h : edges.Pairwise (· < ·)) {a b : α}
    (ha : edges.head? = some a) (hb : edges.getLast? = some b) :
    (binMasses mass threshold edges).sum = binMass mass threshold a b := by
  induction edges generalizing a with
  | nil => cases ha
  | cons first rest ih =>
    cases ha
    cases rest with
    | nil =>
      obtain rfl : first = b := Option.some.inj hb
      rw [binMass_eq le_rfl, max_eq_left (min_le_right _ _), sub_self, zero_div]
      rfl
    | cons second rest =>
      have hrest : (second :: rest).getLast? = some b := by
        rw [← hb, List.getLast?_cons_cons]
      have hfirst : first ≤ second := (List.rel_of_pairwise_cons h List.mem_cons_self).le
      have hlast : second ≤ b := by
        rcases List.mem_cons.1 (List.mem_of_getLast? hrest) with rfl | hmem
        · exact le_rfl
        · exact (List.rel_of_pairwise_cons h.of_cons hmem).le
      have hcons : binMasses mass threshold (first :: second :: rest) =
          binMass mass threshold first second :: binMasses mass threshold (second :: rest) := rfl
      rw [hcons, List.sum_cons, ih h.of_cons rfl hrest, binMass_add hfirst hlast]

/-- What a model answers about a positive level of a measure that it has coefficients for. -/
theorem exceedance_eq {m : LognormalModel α} {s : Scenario α} {q : ExceedanceQuery α}
    {c : Attenuation α} (hlevel : 0 < q.level) (hc : m.coefficients[q.imt]? = some c) :
    m.exceedance s q = .ok (binMasses (truncatedMass q.truncation)
      ((Elementary.ln q.level - c.mean s) / c.sigma) q.epsilonEdges) := by
  simp only [exceedance, if_pos hlevel, meanAndDeviation, hc]
  rfl

theorem length_binMasses (mass threshold : α) (edges : List α) :
    (binMasses mass threshold edges).length = edges.length - 1 := by
  rw [binMasses, List.length_map, length_neighbours]

/-- A model answers if the level is positive and it has coefficients for the measure. -/
theorem exists_exceedance {m : LognormalModel α} {s : Scenario α} {q : ExceedanceQuery α}
    (hlevel : 0 < q.level) (hcoefficients : m.coefficients[q.imt]?.isSome) :
    ∃ poes, m.exceedance s q = .ok poes ∧ poes.length = q.epsilonEdges.length - 1 := by
  obtain ⟨c, hc⟩ := Option.isSome_iff_exists.1 hcoefficients
  exact ⟨_, exceedance_eq hlevel hc, length_binMasses _ _ _⟩

variable [IsStrictOrderedRing α]

/-- The answers of a model to one question add up to one probability, whatever the number of bins. -/
theorem sum_exceedance {m : LognormalModel α} {s : Scenario α} {imt : String}
    {level truncation : α} (htruncation : 0 < truncation) {bins : Nat} {poes : List α}
    (h : m.exceedance s ⟨imt, level, truncation, epsilonEdges truncation bins⟩ = .ok poes) :
    m.exceedanceOf? truncation s imt level = some poes.sum := by
  have hedges := epsilonEdges_cut htruncation bins
  have hmass : ∀ threshold, (binMasses (truncatedMass truncation) threshold
      (epsilonEdges truncation bins)).sum = truncatedExceedance truncation threshold := by
    intro threshold
    rw [sum_binMasses _ _ hedges.ascending hedges.first hedges.last,
      binMass_eq (neg_le_self htruncation.le)]
    rfl
  unfold exceedance at h
  unfold exceedanceOf?
  split at h
  · next hlevel =>
    rw [if_pos hlevel]
    unfold meanAndDeviation at h
    cases hc : m.coefficients[imt]? with
    | none =>
      simp only [hc] at h
      cases h
    | some c =>
      simp only [hc] at h
      cases h
      rw [Option.map_some, hmass]
  · cases h

end

end LognormalModel

/-! ### Higher levels -/

/-- Whether the functions beyond arithmetic preserve the order, the logarithm for numbers greater
than zero, and the exponential is greater than zero. -/
structure MonotoneLaws (α : Type) [Field α] [LinearOrder α] [Elementary α] : Prop where
  exp_pos : ∀ x : α, 0 < Elementary.exp x
  exp_le : ∀ x y : α, x ≤ y → Elementary.exp x ≤ Elementary.exp y
  ln_le : ∀ x y : α, 0 < x → x ≤ y → Elementary.ln x ≤ Elementary.ln y
  normalCdf_le : ∀ x y : α, x ≤ y → Elementary.normalCdf x ≤ Elementary.normalCdf y

section

variable {α : Type} [Field α] [LinearOrder α] [Elementary α]

theorem MonotoneLaws.ln_monotoneOn (h : MonotoneLaws α) :
    MonotoneOn (Elementary.ln : α → α) (Set.Ioi 0) := fun x hx y _ => h.ln_le x y hx

theorem MonotoneLaws.normalCdf_monotone (h : MonotoneLaws α) :
    Monotone (Elementary.normalCdf : α → α) := fun x y => h.normalCdf_le x y

end

namespace LognormalModel

section

variable {α : Type} [Field α] [LinearOrder α] [FloorRing α] {m : LognormalModel α}

/-- Whether a model passes the check of `LognormalModel.make`. -/
def IsMade (m : LognormalModel α) : Prop := make m.name m.coefficients = .ok m

theorem IsMade.sigma_pos (h : m.IsMade) {imt : String} {c : Attenuation α}
    (hc : m.coefficients[imt]? = some c) : 0 < c.sigma := by
  unfold IsMade make at h
  split at h
  · cases h
  · next hnone =>
    have hproper := List.find?_eq_none.1 hnone (imt, c)
      (Std.TreeMap.mem_toList_iff_getElem?_eq_some.2 hc)
    simpa [Attenuation.isProper] using hproper

/-- A model with coefficients for one measure can be made if their standard deviation is greater than
zero. -/
theorem isMade_singleton (name imt : String) {c : Attenuation α} (hc : 0 < c.sigma) :
    IsMade ⟨name, .ofList [(imt, c)]⟩ := by
  have htoList : (Std.TreeMap.ofList [(imt, c)]).toList = [(imt, c)] := rfl
  rw [IsMade, make, htoList]
  simp [Attenuation.isProper, hc]

variable [Elementary α] [IsStrictOrderedRing α]

/-- The mass of a bin above a threshold does not grow with the threshold. -/
theorem binMass_anti (hcdf : Monotone (Elementary.normalCdf : α → α)) {mass : α} (hmass : 0 < mass)
    {low high : α} (h : low ≤ high) (lo hi : α) :
    binMass mass high lo hi ≤ binMass mass low lo hi := by
  have hlower : Max.max lo low ≤ Max.max lo high := max_le_max_left lo h
  simp only [binMass, Scalar.max_eq]
  by_cases hhigh : hi ≤ Max.max lo high
  · rw [if_pos hhigh]
    split
    · exact le_rfl
    · next hlow =>
      exact div_nonneg (sub_nonneg.2 (hcdf (not_le.1 hlow).le)) hmass.le
  · rw [if_neg hhigh, if_neg fun hlow => hhigh (hlow.trans hlower)]
    exact div_le_div_of_nonneg_right (sub_le_sub_left (hcdf hlower) _) hmass.le

/-- In no epsilon bin is a higher level exceeded with a greater probability. -/
theorem exceedance_anti (hln : MonotoneOn (Elementary.ln : α → α) (Set.Ioi 0))
    (hcdf : Monotone (Elementary.normalCdf : α → α)) (hm : m.IsMade) {s : Scenario α} {imt : String}
    {truncation low high : α} {edges poes poes' : List α} (hmass : 0 < truncatedMass truncation)
    (hle : low ≤ high) (hhigh : m.exceedance s ⟨imt, high, truncation, edges⟩ = .ok poes)
    (hlow : m.exceedance s ⟨imt, low, truncation, edges⟩ = .ok poes') :
    List.Forall₂ (· ≤ ·) poes poes' := by
  unfold exceedance at hhigh hlow
  split at hlow
  · next hpos =>
    have hpos' : 0 < high := hpos.trans_le hle
    rw [if_pos hpos'] at hhigh
    unfold meanAndDeviation at hhigh hlow
    cases hc : m.coefficients[imt]? with
    | none =>
      simp only [hc] at hhigh
      cases hhigh
    | some c =>
      simp only [hc] at hhigh hlow
      cases hhigh
      cases hlow
      have hthreshold : (Elementary.ln low - c.mean s) / c.sigma ≤
          (Elementary.ln high - c.mean s) / c.sigma :=
        div_le_div_of_nonneg_right (sub_le_sub_right (hln hpos hpos' hle) _) (hm.sigma_pos hc).le
      unfold binMasses
      rw [List.forall₂_map_left_iff, List.forall₂_map_right_iff, List.forall₂_same]
      exact fun bin _ => binMass_anti hcdf hmass hthreshold _ _
  · cases hlow

end

end LognormalModel

/-! ### Libraries -/

section

variable {α : Type} [Scalar α] [Elementary α] {l : ModelLibrary α}
  {models : String → Option (LognormalModel α)} {name : String} {model : GroundMotionModel α}

/-- Whether a library holds the given lognormal models and no others. -/
def ModelLibrary.IsLognormal (l : ModelLibrary α) (models : String → Option (LognormalModel α)) :
    Prop :=
  ∀ name, l.byName[name]? = (models name).map LognormalModel.toModel

/-- A library of one lognormal model. -/
theorem ModelLibrary.isLognormal_singleton (m : LognormalModel α) :
    (ofList [m.toModel]).IsLognormal fun name => if m.name = name then some m else none := by
  intro name
  have hname : m.toModel.name = m.name := rfl
  simp only [ofList, List.foldl_cons, List.foldl_nil, Std.TreeMap.getElem?_insert,
    Std.TreeMap.getElem?_emptyc, Std.LawfulEqOrd.compare_eq_iff_eq, hname]
  split <;> rfl

theorem ModelLibrary.IsLognormal.exists_of_get (h : l.IsLognormal models)
    (hget : l.get name = .ok model) :
    ∃ lognormal, models name = some lognormal ∧ model = lognormal.toModel := by
  unfold ModelLibrary.get at hget
  rw [h name] at hget
  cases hmodel : models name with
  | none =>
    rw [hmodel] at hget
    cases hget
  | some lognormal =>
    rw [hmodel] at hget
    cases hget
    exact ⟨lognormal, rfl, rfl⟩

end

end SeismicHazard
