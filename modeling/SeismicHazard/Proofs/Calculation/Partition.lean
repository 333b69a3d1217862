import SeismicHazard.Proofs.Calculation.Run

/-!
# The cut into tasks does not matter

Two configurations that differ only in the number of tasks and in the weight of point sources have
the same outcome, although the blocks of their tasks and the order of the results differ.

* `Config.cut`: a configuration with another cut.
* `Calculation.prepares_cut`: the cut changes nothing that is prepared.
* `Calculation.same_of_cut`: the outcomes are the same.
-/

namespace SeismicHazard

/-- The configuration with another number of tasks and another weight factor. -/
def Config.cut {α : Type} (config : Config α) (count : Option Nat) (factor : Option α) : Config α :=
  { config with execution := { config.execution with taskCount := count, pointFactor := factor } }

section

variable {α : Type} [Field α] [LinearOrder α] [FloorRing α]

/-- A cut is allowed or not together with the rest of the configuration. -/
theorem Config.validate_cut (config : Config α) {count count' : Option Nat}
    {factor factor' : Option α} (hcount : count ≠ some 0) (hcount' : count' ≠ some 0)
    (hfactor : ∀ w, factor = some w → 0 ≤ w) (hfactor' : ∀ w, factor' = some w → 0 ≤ w) :
    (config.cut count factor).validate = (config.cut count' factor').validate := by
  have hcounts : ∀ n f, n ≠ some 0 → (config.cut n f).countViolation? =
      if config.binning.epsilonBins = some 0 then some (.zeroCount "binning.num_epsilon_bins")
      else none := by
    intro n f hn
    unfold countViolation?
    simp only [cut, hn, if_false]
  have hweights : ∀ n f, (∀ w, f = some w → 0 ≤ w) → (config.cut n f).weightViolation? = none := by
    intro n f hf
    unfold weightViolation?
    cases f with
    | none => rfl
    | some w => simp [cut, hf w rfl]
  have hviolation : (config.cut count factor).violation? =
      (config.cut count' factor').violation? := by
    unfold violation?
    rw [hcounts count factor hcount, hcounts count' factor' hcount',
      hweights count factor hfactor, hweights count' factor' hfactor']
    rfl
  unfold validate
  rw [hviolation]

end

/-- Whether two outcomes tell the same: the results by key with every cell of every view, the bins,
the tectonic region types and the skipped sites. Only the number of tasks may differ. -/
structure Outcome.Same {α : Type} [TotalOrder α] (a b : Outcome α) : Prop where
  results : a.results.toList = b.results.toList
  grids : a.grids.toList = b.grids.toList
  regions : a.regions = b.regions
  skipped : a.skipped = b.skipped

namespace Calculation

section

variable {α : Type} [Field α] [LinearOrder α] [FloorRing α]

variable [Elementary α] {config : Config α} {inputs : Inputs α} {st : Setting α}
  {skipped : List Nat} {groups : List (WorkGroup α)} {count count' : Option Nat}
  {factor factor' : Option α}

theorem prepares_cut : Prepares (config.cut count factor) inputs st skipped groups ↔
    Prepares config inputs st skipped groups := by
  constructor
  · intro h
    exact ⟨h.reachable, h.setting, h.groups⟩
  · intro h
    exact ⟨h.reachable, h.setting, h.groups⟩

variable [BitPattern α]

/-- The outcomes of two cuts, in whatever order the results of the tasks are merged. -/
theorem same_of_cut {x x' : Executor} {workers workers' : Nat}
    {o o' : Except (Error α) (Outcome α)}
    (h : RunsTo ⟨config.cut count factor, x, workers⟩ inputs o)
    (h' : RunsTo ⟨config.cut count' factor', x', workers'⟩ inputs o') :
    ((∃ out, o = .ok out) ↔ ∃ out, o' = .ok out) ∧
      ∀ out out', o = .ok out → o' = .ok out' → out.Same out' := by
  refine ⟨?_, ?_⟩
  · rw [h.exists_ok_iff, h'.exists_ok_iff]
    simp only [prepares_cut]
  · rintro out out' rfl rfl
    obtain ⟨st, skipped, groups, hprepares, -, hgathers, hgrids, hregions, hskipped⟩ := h.gathers
    obtain ⟨st', skipped', groups', hprepares', -, hgathers', hgrids', hregions', hskipped'⟩ :=
      h'.gathers
    obtain ⟨rfl, rfl, rfl⟩ := (prepares_cut.1 hprepares).unique (prepares_cut.1 hprepares')
    exact ⟨hgathers.toList_eq hgathers', by rw [hgrids, hgrids'], hregions.trans hregions'.symm,
      hskipped.trans hskipped'.symm⟩

/-- A calculation may be cut into any number of tasks, with any weight of point sources, by any
executor: the configuration is accepted or not all the same, and so are the outcomes, in whatever
order the results of the tasks are merged. -/
theorem outcome_independent_of_cut (config : Config α) (inputs : Inputs α)
    (hcount : count ≠ some 0) (hcount' : count' ≠ some 0)
    (hfactor : ∀ w, factor = some w → 0 ≤ w) (hfactor' : ∀ w, factor' = some w → 0 ≤ w)
    (x x' : Executor) (workers workers' : Nat) :
    ((∃ c, withExecutor (config.cut count factor) x workers = .ok c) ↔
      ∃ c, withExecutor (config.cut count' factor') x' workers' = .ok c) ∧
    ∀ c c', withExecutor (config.cut count factor) x workers = .ok c →
      withExecutor (config.cut count' factor') x' workers' = .ok c' →
      ∀ o o', c.RunsTo inputs o → c'.RunsTo inputs o' →
        ((∃ out, o = .ok out) ↔ ∃ out, o' = .ok out) ∧
          ∀ out out', o = .ok out → o' = .ok out' → out.Same out' := by
  have hvalidate := config.validate_cut hcount hcount' hfactor hfactor'
  refine ⟨?_, ?_⟩
  · constructor
    · rintro ⟨c, hc⟩
      obtain ⟨hvalid, hrequest, -⟩ := withExecutor_eq_ok.1 hc
      exact ⟨_, withExecutor_eq_ok.2 ⟨hvalidate ▸ hvalid, hrequest, rfl⟩⟩
    · rintro ⟨c, hc⟩
      obtain ⟨hvalid, hrequest, -⟩ := withExecutor_eq_ok.1 hc
      exact ⟨_, withExecutor_eq_ok.2 ⟨hvalidate ▸ hvalid, hrequest, rfl⟩⟩
  · intro c c' hc hc' o o' ho ho'
    obtain ⟨-, -, rfl⟩ := withExecutor_eq_ok.1 hc
    obtain ⟨-, -, rfl⟩ := withExecutor_eq_ok.1 hc'
    exact same_of_cut ho ho'

open Sample in
/-- One task for everything and three tasks, in which points count half. -/
theorem outcome_independent_of_cut_sample : ∃ c c' out out',
    withExecutor (Sample.config.cut (some 1) (some 0)) .sequential 1 = .ok c ∧
    withExecutor (Sample.config.cut (some 3) (some (1 / 2))) (.parallel 2) 2 = .ok c' ∧
    c.run Sample.inputs = .ok out ∧ c'.run Sample.inputs = .ok out' ∧ out.Same out' := by
  obtain ⟨c, hc⟩ := Fallible.exists_of_toBool (show (withExecutor
    (Sample.config.cut (some 1) (some 0)) .sequential 1).toBool = true by decide +kernel)
  obtain ⟨c', hc'⟩ := Fallible.exists_of_toBool (show (withExecutor
    (Sample.config.cut (some 3) (some (1 / 2))) (.parallel 2) 2).toBool = true by decide +kernel)
  obtain ⟨-, -, rfl⟩ := withExecutor_eq_ok.1 hc
  obtain ⟨-, -, rfl⟩ := withExecutor_eq_ok.1 hc'
  obtain ⟨out, hout⟩ := Fallible.exists_of_toBool (show (run ⟨Sample.config.cut (some 1) (some 0),
    .sequential, 1⟩ Sample.inputs).toBool = true by decide +kernel)
  obtain ⟨out', hout'⟩ := Fallible.exists_of_toBool (show (run
    ⟨Sample.config.cut (some 3) (some (1 / 2)), .parallel 2, 2⟩ Sample.inputs).toBool = true by
      decide +kernel)
  have hsame := (outcome_independent_of_cut Sample.config Sample.inputs (by decide) (by decide)
    (by decide) (by decide +kernel) .sequential (.parallel 2) 1 2).2 _ _ hc hc' _ _ (runsTo_run _ _)
      (runsTo_run _ _)
  exact ⟨_, _, out, out', hc, hc', hout, hout', hsame.2 out out' hout hout'⟩

end

end Calculation

end SeismicHazard
