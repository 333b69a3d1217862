import SeismicHazard.Proofs.Config.Validation

/-!
# Configurations that ask for the same

Whether a configuration is allowed does not depend on how often it asks for a threshold or an
intensity measure type.

* `Config.asking`: a configuration with another request.
* `SameRequests`: requests with the same members.
* `Config.validate_asking`, `Config.validateRequest_asking`: they are allowed or refused together.
-/

namespace SeismicHazard

/-- The configuration with other thresholds and intensity measure types. -/
def Config.asking {α : Type} (config : Config α) (poes : List α) (imts : List String) : Config α :=
  { config with request := { config.request with poes := poes, imts := imts } }

/-- Whether two requests have the same thresholds and intensity measure types, in whatever order and
however often. -/
structure SameRequests {α : Type} (poes : List α) (imts : List String) (poes' : List α)
    (imts' : List String) : Prop where
  poes : ∀ p, p ∈ poes ↔ p ∈ poes'
  imts : ∀ i, i ∈ imts ↔ i ∈ imts'

section

variable {α : Type} {config : Config α} {poes poes' : List α} {imts imts' : List String}

theorem SameRequests.symm (h : SameRequests poes imts poes' imts') :
    SameRequests poes' imts' poes imts :=
  ⟨fun p => (h.poes p).symm, fun i => (h.imts i).symm⟩

theorem eq_nil_iff_of_mem_iff {β : Type} {xs ys : List β} (h : ∀ x, x ∈ xs ↔ x ∈ ys) :
    xs = [] ↔ ys = [] := by
  simp only [List.eq_nil_iff_forall_not_mem, h]

namespace Config

theorem measures_asking : (config.asking poes imts).measures =
    if imts = [] then config.request.levels.keys else imts := rfl

theorem thresholds_asking :
    (config.asking poes imts).thresholds = if poes = [] then [none] else poes.map some := by
  cases poes <;> rfl

theorem mem_measures_asking (h : SameRequests poes imts poes' imts') (i : String) :
    i ∈ (config.asking poes imts).measures ↔ i ∈ (config.asking poes' imts').measures := by
  have hnil := eq_nil_iff_of_mem_iff h.imts
  rw [measures_asking, measures_asking]
  by_cases himts : imts = []
  · rw [if_pos himts, if_pos (hnil.1 himts)]
  · rw [if_neg himts, if_neg fun h' => himts (hnil.2 h')]
    exact h.imts i

theorem mem_thresholds_asking (h : SameRequests poes imts poes' imts') (p : Option α) :
    p ∈ (config.asking poes imts).thresholds ↔ p ∈ (config.asking poes' imts').thresholds := by
  have hnil := eq_nil_iff_of_mem_iff h.poes
  rw [thresholds_asking, thresholds_asking]
  by_cases hpoes : poes = []
  · rw [if_pos hpoes, if_pos (hnil.1 hpoes)]
  · rw [if_neg hpoes, if_neg fun h' => hpoes (hnil.2 h')]
    simp only [List.mem_map, h.poes]

theorem validateRequest_asking (h : SameRequests poes imts poes' imts') :
    (config.asking poes imts).validateRequest = (config.asking poes' imts').validateRequest := by
  have hmeasures : (config.asking poes imts).measures = [] ↔
      (config.asking poes' imts').measures = [] := eq_nil_iff_of_mem_iff (mem_measures_asking h)
  have hpoes : (config.asking poes imts).request.poes = [] ↔
      (config.asking poes' imts').request.poes = [] := eq_nil_iff_of_mem_iff h.poes
  have hlevels : (config.asking poes imts).hasLevels = (config.asking poes' imts').hasLevels := rfl
  unfold validateRequest
  simp only [hmeasures, hpoes, hlevels]

variable [Scalar α]

theorem levelViolation?_congr (h : ∀ i, i ∈ imts ↔ i ∈ imts') (imt : String) (level : α) :
    levelViolation? imts imt level = levelViolation? imts' imt level := by
  unfold levelViolation?
  simp only [ne_eq, eq_nil_iff_of_mem_iff h, h]

theorem violation?_asking (h : SameRequests poes imts poes' imts') :
    (config.asking poes imts).violation? = none ↔ (config.asking poes' imts').violation? = none := by
  have hthreshold : (config.asking poes imts).thresholdViolation? =
      (config.asking poes' imts').thresholdViolation? := by
    unfold thresholdViolation?
    simp only [asking, List.all_eq_true, h.poes]
  have hlevels : (config.asking poes imts).levelsViolation? = none ↔
      (config.asking poes' imts').levelsViolation? = none := by
    unfold levelsViolation?
    rw [Option.or_eq_none_iff, Option.or_eq_none_iff]
    refine and_congr ?_ ?_
    · simp only [asking, levelViolation?_congr h.imts]
    · have hlevels : (config.asking poes imts).hasLevels = (config.asking poes' imts').hasLevels := rfl
      rw [hlevels]
      split
      · simp only [asking, Option.map_eq_none_iff, List.find?_eq_none, h.imts]
      · rfl
  unfold violation?
  simp only [Option.or_eq_none_iff, hthreshold, hlevels]
  rfl

/-- Configurations that ask for the same are allowed together. -/
theorem validate_asking (h : SameRequests poes imts poes' imts') :
    (config.asking poes imts).validate = .ok () ↔ (config.asking poes' imts').validate = .ok () := by
  have hvalidate : ∀ c : Config α, c.validate = .ok () ↔ c.violation? = none := by
    intro c
    unfold validate
    cases c.violation? <;> simp
  rw [hvalidate, hvalidate, violation?_asking h]

end Config

end

end SeismicHazard
