import Mathlib
import SeismicHazard.Proofs.GroundMotion.Lognormal
import SeismicHazard.Proofs.Number.Real

/-!
# What a lognormal model answers bin by bin

A lognormal model gives every epsilon bin the part of the truncated normal distribution in it that lies
above the threshold of the level. So the answers are probabilities, they add up to the probability above
the threshold, and they do not depend on how the rest of the range is cut.

* `LognormalModel.binMass_mem_unit`: the mass of a bin is a probability.
* `LognormalModel.binMasses_eraseIdx`: the bins without an inner edge.
* `LognormalModel.bins_share_exceedance`: the answers of a model.
-/

namespace SeismicHazard

section

variable {α : Type} [Field α] [LinearOrder α] [FloorRing α]

/-- The first of two neighbours in an ascending list is less than the second. -/
theorem lt_of_mem_neighbours {xs : List α} (h : xs.Pairwise (· < ·)) {p : α × α}
    (hp : p ∈ neighbours xs) : p.1 ∈ xs ∧ p.2 ∈ xs ∧ p.1 < p.2 := by
  obtain ⟨i, hi⟩ := List.mem_iff_getElem?.1 hp
  rw [neighbours, List.getElem?_zip_eq_some, List.getElem?_tail] at hi
  exact ⟨List.mem_of_getElem? hi.1, List.mem_of_getElem? hi.2,
    getElem_lt_of_pairwise h i.lt_succ_self hi.1 hi.2⟩

end

namespace LognormalModel

section

variable {α : Type} [Field α] [LinearOrder α] [FloorRing α] [Elementary α]

theorem binMasses_cons_cons (mass threshold a b : α) (rest : List α) :
    binMasses mass threshold (a :: b :: rest) =
      binMass mass threshold a b :: binMasses mass threshold (b :: rest) := rfl

/-- Without an inner edge the two bins at it become one with the masses of both. -/
theorem binMasses_eraseIdx (mass threshold : α) {edges : List α} (h : edges.Pairwise (· < ·))
    {i : ℕ} (hi : i + 2 < edges.length) :
    ∃ p q, (binMasses mass threshold edges)[i]? = some p ∧
      (binMasses mass threshold edges)[i + 1]? = some q ∧
      binMasses mass threshold (edges.eraseIdx (i + 1)) =
        (binMasses mass threshold edges).take i ++
          (p + q) :: (binMasses mass threshold edges).drop (i + 2) := by
  induction i generalizing edges with
  | zero =>
    match edges, hi with
    | a :: b :: c :: rest, _ =>
      have hab : a ≤ b := (List.rel_of_pairwise_cons h List.mem_cons_self).le
      have hbc : b ≤ c := (List.rel_of_pairwise_cons h.of_cons List.mem_cons_self).le
      refine ⟨_, _, rfl, rfl, ?_⟩
      rw [binMass_add hab hbc]
      rfl
  | succ i ih =>
    match edges, hi with
    | a :: b :: rest, hi =>
      obtain ⟨p, q, hp, hq, herase⟩ := ih h.of_cons (Nat.lt_of_succ_lt_succ hi)
      refine ⟨p, q, hp, hq, ?_⟩
      have hrest : (a :: b :: rest).eraseIdx (i + 2) = a :: b :: rest.eraseIdx i := rfl
      have hrest' : (b :: rest).eraseIdx (i + 1) = b :: rest.eraseIdx i := rfl
      rw [hrest, binMasses_cons_cons, ← hrest', herase]
      rfl

variable [IsStrictOrderedRing α] {m : LognormalModel α} {truncation : α}

/-- The mass of a bin within the truncation is a probability. -/
theorem binMass_mem_unit (hcdf : Monotone (Elementary.normalCdf : α → α))
    (hmass : 0 < truncatedMass truncation) {lo hi : α} (hlo : -truncation ≤ lo) (h : lo ≤ hi)
    (hhi : hi ≤ truncation) (threshold : α) :
    0 ≤ binMass (truncatedMass truncation) threshold lo hi ∧
      binMass (truncatedMass truncation) threshold lo hi ≤ 1 := by
  rw [binMass_eq h]
  set lower := Max.max lo (Min.min threshold hi) with hlower
  have hbelow : lower ≤ hi := max_le h (min_le_right _ _)
  have habove : -truncation ≤ lower := hlo.trans (le_max_left _ _)
  constructor
  · exact div_nonneg (sub_nonneg.2 (hcdf hbelow)) hmass.le
  · rw [div_le_one hmass]
    exact sub_le_sub (hcdf hhi) (hcdf habove)

/-- The answers of a model that can be made, for edges from one end of the truncation to the other. There
is a probability for every bin. They add up to the truncated probability that epsilon exceeds the
threshold of the level, none is greater for a higher level, and without an inner edge the two bins at it
become one with the probabilities of both. -/
theorem bins_share_exceedance (hln : MonotoneOn (Elementary.ln : α → α) (Set.Ioi 0))
    (hcdf : Monotone (Elementary.normalCdf : α → α)) (hm : m.IsMade)
    (hmass : Elementary.normalCdf (-truncation) < Elementary.normalCdf truncation) {edges : List α}
    (hedges : Edges.Cut edges ⟨-truncation, truncation⟩) {imt : String} {c : Attenuation α}
    (hc : m.coefficients[imt]? = some c) (s : Scenario α) {level : α} (hlevel : 0 < level) :
    ∃ poes, m.exceedance s ⟨imt, level, truncation, edges⟩ = .ok poes ∧
      poes.length = edges.length - 1 ∧ (∀ p ∈ poes, 0 ≤ p ∧ p ≤ 1) ∧
      poes.sum = (Elementary.normalCdf truncation - Elementary.normalCdf
          (Max.max (-truncation) (Min.min ((Elementary.ln level - c.mean s) / c.sigma) truncation))) /
        (Elementary.normalCdf truncation - Elementary.normalCdf (-truncation)) ∧
      (∀ higher, level ≤ higher → ∃ poes',
        m.exceedance s ⟨imt, higher, truncation, edges⟩ = .ok poes' ∧
          List.Forall₂ (· ≤ ·) poes' poes) ∧
      ∀ i, i + 2 < edges.length → ∃ p q, poes[i]? = some p ∧ poes[i + 1]? = some q ∧
        m.exceedance s ⟨imt, level, truncation, edges.eraseIdx (i + 1)⟩ =
          .ok (poes.take i ++ (p + q) :: poes.drop (i + 2)) := by
  have hpos : 0 < truncatedMass truncation := sub_pos.2 hmass
  refine ⟨_, exceedance_eq hlevel hc, length_binMasses _ _ _, ?_, ?_, fun higher hle => ?_,
    fun i hi => ?_⟩
  · intro p hp
    obtain ⟨bin, hbin, rfl⟩ := List.mem_map.1 hp
    obtain ⟨hfirst, hsecond, hlt⟩ := lt_of_mem_neighbours hedges.ascending hbin
    exact binMass_mem_unit hcdf hpos (hedges.mem hfirst).1 hlt.le (hedges.mem hsecond).2 _
  · rw [sum_binMasses _ _ hedges.ascending hedges.first hedges.last]
    exact binMass_eq ((hedges.mem (List.mem_of_mem_head? hedges.first)).2) _ _
  · have hanswer := exceedance_eq (m := m) (s := s) (q := ⟨imt, higher, truncation, edges⟩)
      (hlevel.trans_le hle) hc
    exact ⟨_, hanswer, exceedance_anti hln hcdf hm hpos hle hanswer (exceedance_eq hlevel hc)⟩
  · obtain ⟨p, q, hp, hq, herase⟩ := binMasses_eraseIdx (truncatedMass truncation)
      ((Elementary.ln level - c.mean s) / c.sigma) hedges.ascending hi
    exact ⟨p, q, hp, hq, (exceedance_eq hlevel hc).trans (congrArg Except.ok herase)⟩

end

/-! ### A normal distribution -/

open RealFunctions

/-- Three bins of unequal widths; the edge at one is left out. -/
theorem bins_share_exceedance_normal :
    ∃ (m : LognormalModel ℝ) (s : Scenario ℝ) (c : Attenuation ℝ) (poes : List ℝ) (p q : ℝ),
      m.IsMade ∧ m.coefficients["PGA"]? = some c ∧ c.mean s = 2 - Real.log 35 ∧
      m.exceedance s ⟨"PGA", 1 / 10, 3, [-3, 0, 1, 3]⟩ = .ok poes ∧ poes.length = 3 ∧
      (∀ p ∈ poes, 0 ≤ p ∧ p ≤ 1) ∧ poes[1]? = some p ∧ poes[2]? = some q ∧
      m.exceedance s ⟨"PGA", 1 / 10, 3, [-3, 0, 3]⟩ = .ok (poes.take 1 ++ [p + q]) := by
  let c : Attenuation ℝ := ⟨-1, 1 / 2, 1, 10, 3 / 5⟩
  let s : Scenario ℝ := ⟨6, 20, 25, ⟨0, 0, 15⟩⟩
  have hsigma : 0 < c.sigma := by norm_num [c]
  let m : LognormalModel ℝ := ⟨"G", .ofList [("PGA", c)]⟩
  have hmade : m.IsMade := isMade_singleton "G" "PGA" hsigma
  have hc : m.coefficients["PGA"]? = some c := rfl
  have hmean : c.mean s = 2 - Real.log 35 := by
    norm_num [c, s, Attenuation.mean, Elementary.ln]
  have hedges : Edges.Cut [-3, 0, 1, (3 : ℝ)] ⟨-3, 3⟩ := ⟨by norm_num, rfl, rfl⟩
  have hlevel : (0 : ℝ) < 1 / 10 := by norm_num
  obtain ⟨poes, hanswer, hlength, hunit, -, -, hmerge⟩ :=
    bins_share_exceedance ln_monotoneOn normalCdf_strictMono.monotone hmade
      (normalCdf_strictMono (by norm_num)) hedges hc s hlevel
  obtain ⟨p, q, hp, hq, herase⟩ := hmerge 1 (by decide)
  have hdrop : poes.drop 3 = [] := List.drop_eq_nil_of_le hlength.le
  rw [hdrop] at herase
  exact ⟨m, s, c, poes, p, q, hmade, hc, hmean, hanswer, hlength, hunit, hp, hq, herase⟩

end LognormalModel

end SeismicHazard
