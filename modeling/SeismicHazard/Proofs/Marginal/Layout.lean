import SeismicHazard.Proofs.Tensor.Cells
import SeismicHazard.Result.Marginals

/-!
# Layouts of marginals

The layout of the marginals of a result is what they are of: the kinds and the shapes of the views,
in order. Two results can be combined exactly if they have one layout, and then they are combined
cell by cell.

* `Marginals.layout`: the kinds and shapes of the views.
* `Marginals.probability?`: the probability in a cell of a view.
* `Marginals.combine_eq_none_iff`: which results can be combined.
* `Marginals.probability?_combine`: the combination in every cell.
* `Marginals.eq_of_probability?_eq`: the layout and the probabilities determine the marginals.
-/

namespace SeismicHazard.Marginals

section

variable {α : Type} {m n : Marginals α}

/-- The kinds and the shapes of the views. -/
def layout (m : Marginals α) : List (Marginal × List Nat) := m.views.map fun v => (v.1, v.2.shape)

/-- The probability in a cell of a view. -/
def probability? (m : Marginals α) (view : Nat) (cell : List Nat) : Option α :=
  m.views[view]?.bind fun v => v.2.get? cell

/-- The layout tells which cells there are. -/
theorem isSome_probability?_iff {view : Nat} {cell : List Nat} :
    (m.probability? view cell).isSome ↔ ∃ v, m.layout[view]? = some v ∧ cell ∈ Tensor.cells v.2 := by
  unfold probability? layout
  rw [List.getElem?_map]
  cases m.views[view]? with
  | none => simp
  | some v => simp [Tensor.isSome_get?_iff]

theorem eq_of_probability?_eq (hlayout : m.layout = n.layout)
    (h : ∀ view cell, m.probability? view cell = n.probability? view cell) : m = n := by
  obtain ⟨vs⟩ := m
  obtain ⟨ws⟩ := n
  congr
  refine List.ext_getElem? fun i => ?_
  have hi : vs[i]?.map (fun v => (v.1, v.2.shape)) = ws[i]?.map fun v => (v.1, v.2.shape) := by
    rw [← List.getElem?_map, ← List.getElem?_map]
    exact congrArg (·[i]?) hlayout
  have hcells := h i
  unfold probability? at hcells
  cases hv : vs[i]? with
  | none =>
    rw [hv] at hi
    cases hw : ws[i]? with
    | none => rfl
    | some w =>
      rw [hw] at hi
      cases hi
  | some v =>
    rw [hv] at hi
    cases hw : ws[i]? with
    | none =>
      rw [hw] at hi
      cases hi
    | some w =>
      obtain ⟨kind, s⟩ := v
      obtain ⟨kind', t⟩ := w
      simp only [hv, hw, Option.map_some, Option.some.injEq, Prod.mk.injEq, Option.bind_some] at hi hcells
      obtain ⟨rfl, hshape⟩ := hi
      rw [Tensor.eq_of_get?_eq hshape hcells]

end

section

variable {α : Type} [Scalar α] {m n : Marginals α} (site : String)

/-! ### View by view -/

theorem layout_combineViews (vs ws : List (Marginal × Tensor α)) :
    (combineViews site vs ws).1.map (fun v => (v.1, v.2.shape)) =
      vs.map fun v => (v.1, v.2.shape) := by
  induction vs generalizing ws with
  | nil => rfl
  | cons v vs ih =>
    cases ws with
    | nil => rfl
    | cons w ws =>
      rw [combineViews]
      split
      · rw [List.map_cons, ih ws]
        rfl
      · rfl

theorem combineViews_eq_none_iff {vs ws : List (Marginal × Tensor α)}
    (hlength : vs.length = ws.length) : (combineViews site vs ws).2 = none ↔
      (vs.map fun v => (v.1, v.2.shape)) = ws.map fun v => (v.1, v.2.shape) := by
  induction vs generalizing ws with
  | nil =>
    cases ws with
    | nil => exact ⟨fun _ => rfl, fun _ => rfl⟩
    | cons w ws => cases hlength
  | cons v vs ih =>
    cases ws with
    | nil => cases hlength
    | cons w ws =>
      rw [combineViews, List.map_cons, List.map_cons, List.cons.injEq, Prod.mk.injEq]
      split
      · next h =>
        rw [ih (Nat.succ.inj hlength)]
        exact ⟨fun hrest => ⟨h, hrest⟩, fun hall => hall.2⟩
      · next h =>
        constructor
        · intro hfailure
          cases hfailure
        · rintro ⟨hhead, -⟩
          exact absurd hhead h

/-- Views of one layout are combined cell by cell. -/
theorem get?_combineViews {vs ws : List (Marginal × Tensor α)}
    (h : (vs.map fun v => (v.1, v.2.shape)) = ws.map fun v => (v.1, v.2.shape)) (view : Nat)
    (cell : List Nat) : ((combineViews site vs ws).1[view]?.bind fun v => v.2.get? cell) =
      Option.merge eitherOf (vs[view]?.bind fun v => v.2.get? cell)
        (ws[view]?.bind fun v => v.2.get? cell) := by
  induction vs generalizing ws view with
  | nil =>
    cases ws with
    | nil => rfl
    | cons w ws => cases h
  | cons v vs ih =>
    cases ws with
    | nil => cases h
    | cons w ws =>
      rw [List.map_cons, List.map_cons, List.cons.injEq, Prod.mk.injEq] at h
      rw [combineViews, dif_pos h.1]
      cases view with
      | zero => exact Tensor.get?_zipWith eitherOf v.2 w.2 h.1.2 cell
      | succ view => exact ih h.2 view

/-! ### Result by result -/

/-- Combining keeps the layout, also if it fails. -/
theorem layout_combine (m n : Marginals α) : (m.combine site n).1.layout = m.layout := by
  unfold combine
  split
  · exact layout_combineViews site m.views n.views
  · rfl

/-- Results can be combined exactly if they have one layout. -/
theorem combine_eq_none_iff : (m.combine site n).2 = none ↔ m.layout = n.layout := by
  unfold combine
  split
  · next h => exact combineViews_eq_none_iff site h
  · next h =>
    constructor
    · intro hfailure
      cases hfailure
    · intro hlayout
      have hlength := congrArg List.length hlayout
      simp only [layout, List.length_map] at hlength
      exact absurd hlength h

theorem probability?_combine (h : m.layout = n.layout) (view : Nat) (cell : List Nat) :
    (m.combine site n).1.probability? view cell =
      Option.merge eitherOf (m.probability? view cell) (n.probability? view cell) := by
  have hlength : m.views.length = n.views.length := by
    simpa [layout] using congrArg List.length h
  unfold combine
  rw [if_pos hlength]
  exact get?_combineViews site h view cell

end

end SeismicHazard.Marginals
