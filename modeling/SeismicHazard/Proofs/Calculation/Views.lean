import SeismicHazard.Proofs.Calculation.Run
import SeismicHazard.Proofs.Number.Span

/-!
# The views of a result agree

* `Marginal.marginalize`: a view along the axes of a coarser one.
* `Record.check_of_aggregates_eq`: a record whose views agree is accepted.
* `Calculation.views_agree`: every view of a result is the marginal of all finer ones, and all of them
  give one overall probability.
-/

namespace SeismicHazard

section

variable {α : Type} [Field α] [LinearOrder α] [FloorRing α]

/-- The probabilities along the axes of `coarse`, from a view that keeps the axes of `fine`: those of
the cells that differ only along the other axes are combined as independent. -/
def Marginal.marginalize (fine coarse : Marginal) (t : Tensor α) : Tensor α :=
  Tensor.ofCells (fine.coarsen coarse t.shape) fun cell =>
    1 - (((Tensor.cells t.shape).filter (fine.coarsen coarse · = cell)).map fun c =>
      1 - (t.get? c).getD 0).prod

/-- A marginal of factors is recovered from every one that keeps its axes. -/
theorem Marginal.marginalize_ofFactors {fine coarse : Marginal} (haxes : coarse.axes ⊆ fine.axes)
    {shape : List Nat} (hrank : shape.length = 6) {F : Multiset (List Nat × α)}
    (h : ∀ x ∈ F, x.1 ∈ Tensor.cells shape) :
    fine.marginalize coarse (fine.ofFactors shape F) = coarse.ofFactors shape F := by
  have hshape : fine.coarsen coarse (fine.project shape) = coarse.project shape :=
    coarsen_project haxes hrank
  rw [marginalize, shape_ofFactors, hshape]
  refine Tensor.ofCells_congr fun cell _ => ?_
  rw [← ofFactors_coarsen haxes hrank h cell, productWhere_entries]
  congr 2
  refine List.map_congr_left fun c hc => ?_
  rw [get?_ofFactors _ _ (List.mem_of_mem_filter hc)]
  rfl

/-! ### Records -/

theorem Span.ofNumbers_replicate (p : α) (n : Nat) :
    Span.ofNumbers (List.replicate (n + 1) p) = some (Span.single p) := by
  induction n with
  | zero => simp [ofNumbers, extendByNumber]
  | succ n ih =>
    rw [List.replicate_succ', ofNumbers_append_singleton, ih]
    simp [extendByNumber, add, single, Scalar.min_eq, Scalar.max_eq]

/-- A record all of whose views give one overall probability is accepted. -/
theorem Record.check_of_aggregates_eq {r : Record α}
    (h : ∀ p ∈ r.aggregates, ∀ q ∈ r.aggregates, p = q)
    {tolerance : α} (htolerance : 0 ≤ tolerance) (strict : Bool) :
    r.check tolerance strict = .ok () := by
  have hagree : agree tolerance r.aggregates = true := by
    cases hlist : r.aggregates with
    | nil => rfl
    | cons p ps =>
      have hall : p :: ps = List.replicate (ps.length + 1) p := by
        refine List.eq_replicate_iff.2 ⟨rfl, fun q hq => ?_⟩
        exact h q (hlist ▸ hq) p (hlist ▸ List.mem_cons_self)
      have hspan := Span.ofNumbers_replicate p ps.length
      rw [← hall] at hspan
      simp only [agree, hspan, Span.single, sub_self, decide_eq_true_eq]
      exact htolerance
  rw [check, hagree]
  rfl

end

namespace Calculation

section

variable {α : Type} [Field α] [LinearOrder α] [FloorRing α] [Elementary α] [BitPattern α]
  {c : Calculation α} {inputs : Inputs α} {out : Outcome α} {k : ResultKey α} {m : Marginals α}

/-- The views of a result are the marginals that are asked for, of factors within the bins of its
site. -/
theorem RunsTo.exists_ofFactors (h : c.RunsTo inputs (.ok out)) (hm : out.results[k]? = some m) :
    ∃ g : Grid α, ∃ numRegions, ∃ F : Multiset (List Nat × α),
      (∀ x ∈ F, x.1 ∈ Tensor.cells (g.shape numRegions)) ∧
        m = Marginals.ofFactors c.config.marginals (g.shape numRegions) F := by
  obtain ⟨st, skipped, groups, hprepares, -, hgathers, -⟩ := h.gathers
  obtain ⟨-, -, hmarginals, -⟩ := hprepares.settings_eq
  obtain ⟨-, g, -, hfits, hgather⟩ := hgathers.exists_gather hm
  rw [Setting.gather, hmarginals] at hgather
  exact ⟨g, st.regions.length, factorsOf g st.regions.length _,
    mem_cells_of_mem_factorsOf fun c hc => (hfits c hc).length, hgather⟩

theorem RunsTo.map_fst_views (h : c.RunsTo inputs (.ok out)) (hm : out.results[k]? = some m) :
    m.views.map (·.1) = c.config.marginals := by
  obtain ⟨g, numRegions, F, -, rfl⟩ := h.exists_ofFactors hm
  exact Marginals.map_fst_views_ofFactors _ _ _

/-- Every view of a result is the marginal of each view that keeps its axes. -/
theorem RunsTo.marginalize_eq (h : c.RunsTo inputs (.ok out)) (hm : out.results[k]? = some m)
    {coarse fine : Marginal} {t t' : Tensor α} (ht : (coarse, t) ∈ m.views)
    (ht' : (fine, t') ∈ m.views) (haxes : coarse.axes ⊆ fine.axes) :
    t = fine.marginalize coarse t' := by
  obtain ⟨g, numRegions, F, hF, rfl⟩ := h.exists_ofFactors hm
  obtain ⟨-, rfl⟩ := Marginals.mem_views_ofFactors.1 ht
  obtain ⟨-, rfl⟩ := Marginals.mem_views_ofFactors.1 ht'
  exact (Marginal.marginalize_ofFactors haxes (g.length_shape numRegions) hF).symm

/-- The views of a result give one overall probability. -/
theorem RunsTo.exists_aggregates_eq (h : c.RunsTo inputs (.ok out))
    (hm : out.results[k]? = some m) :
    ∃ p, m.aggregates = List.replicate c.config.marginals.length p := by
  obtain ⟨g, numRegions, F, hF, rfl⟩ := h.exists_ofFactors hm
  exact ⟨_, Marginals.aggregates_ofFactors _ hF⟩

/-- The views of every result of a calculation are those that are asked for, and they agree: each of
them is the marginal of the ones that keep its axes, all of them give one overall probability, and no
record of the result is refused, however small the tolerance. -/
theorem views_agree [DecimalText α] (h : c.RunsTo inputs (.ok out))
    (hm : out.results[k]? = some m) :
    m.views.map (·.1) = c.config.marginals ∧
    (∀ coarse fine t t', (coarse, t) ∈ m.views → (fine, t') ∈ m.views →
      coarse.axes ⊆ fine.axes → t = fine.marginalize coarse t') ∧
    m.aggregates.length = c.config.marginals.length ∧
    (∀ p ∈ m.aggregates, ∀ q ∈ m.aggregates, p = q) ∧
    ∀ site grid time tolerance, 0 < tolerance →
      (Record.ofResult k m site grid time).check tolerance true = .ok () := by
  obtain ⟨overall, haggregates⟩ := h.exists_aggregates_eq hm
  have hsame : ∀ p ∈ m.aggregates, ∀ q ∈ m.aggregates, p = q := by
    rw [haggregates]
    intro p hp q hq
    rw [List.eq_of_mem_replicate hp, List.eq_of_mem_replicate hq]
  refine ⟨h.map_fst_views hm, ?_, ?_, hsame, ?_⟩
  · intro coarse fine t t' ht ht' haxes
    exact h.marginalize_eq hm ht ht' haxes
  · rw [haggregates, List.length_replicate]
  · intro site grid time tolerance htolerance
    exact Record.check_of_aggregates_eq hsame htolerance.le true

open Sample in
theorem views_agree_sample : ∃ out m, Sample.calculation.RunsTo Sample.inputs (.ok out) ∧
    out.results[Sample.key]? = some m ∧ m.views.map (·.1) = Marginal.all ∧
    (∀ coarse fine t t', (coarse, t) ∈ m.views → (fine, t') ∈ m.views →
      coarse.axes ⊆ fine.axes → t = fine.marginalize coarse t') ∧
    m.aggregates.length = 8 ∧ (∀ p ∈ m.aggregates, ∀ q ∈ m.aggregates, p = q) ∧
    ∀ site grid time tolerance, 0 < tolerance →
      (Record.ofResult Sample.key m site grid time).check tolerance true = .ok () := by
  obtain ⟨out, m, hout, hm⟩ := Sample.exists_result
  have hrun : Sample.calculation.RunsTo Sample.inputs (.ok out) := hout ▸ runsTo_run _ _
  exact ⟨out, m, hrun, hm, views_agree hrun hm⟩

end

end Calculation

end SeismicHazard
