import Mathlib.Data.List.Sort
import Mathlib.Tactic.Ring
import SeismicHazard.Proofs.Number.Exact
import SeismicHazard.Proofs.Tensor.Factors
import SeismicHazard.Result.Marginals

/-!
# Marginals as products over cells

A marginal of factors that belong to cells holds in each of its cells one minus the product of the
factors whose cells have its coordinates.

* `Marginal.project`: the coordinates of a cell along the axes of a marginal.
* `Marginal.ofComplement_ofCells`: the marginal of a tensor of any rank.
* `Marginal.ofFactors`, `Marginals.ofFactors`: the marginals of factors.
* `Marginals.combine_ofFactors`: combining is taking the factors together.
* `Marginal.ofFactors_coarsen`: a marginal is a marginal of any other one that keeps its axes.
* `Marginal.anyOf_ofFactors`, `Marginals.aggregates_ofFactors`: all marginals give one overall
  probability.
-/

namespace SeismicHazard

namespace Marginal

/-! ### Coordinates -/

/-- The coordinates along the axes of the marginal, of those axes that there are. -/
def project (m : Marginal) (cell : List Nat) : List Nat := m.axes.filterMap fun a => cell[a.index]?

/-- The coordinates along the axes of `coarse` of a cell of `fine`. -/
def coarsen (fine coarse : Marginal) (cell : List Nat) : List Nat :=
  coarse.axes.filterMap fun a => cell[fine.axes.idxOf a]?

theorem coarsen_project {fine coarse : Marginal} (h : coarse.axes ⊆ fine.axes) {cell : List Nat}
    (hcell : cell.length = 6) : fine.coarsen coarse (fine.project cell) = coarse.project cell := by
  obtain ⟨a, b, c, d, e, f, rfl⟩ : ∃ a b c d e f, cell = [a, b, c, d, e, f] := by
    match cell, hcell with
    | [a, b, c, d, e, f], _ => exact ⟨a, b, c, d, e, f, rfl⟩
  cases fine <;> cases coarse <;> first | rfl | exact absurd h (by decide)

theorem forall₂_project (m : Marginal) {shape cell : List Nat}
    (h : List.Forall₂ (· < ·) cell shape) :
    List.Forall₂ (· < ·) (m.project cell) (m.project shape) := by
  unfold project
  induction m.axes with
  | nil => exact .nil
  | cons a axes ih =>
    by_cases ha : a.index < cell.length
    · have hb : a.index < shape.length := h.length_eq ▸ ha
      simp only [List.filterMap_cons, List.getElem?_eq_getElem ha, List.getElem?_eq_getElem hb]
      exact .cons (h.get ha hb) ih
    · have hb : ¬ a.index < shape.length := h.length_eq ▸ ha
      simp only [List.filterMap_cons, List.getElem?_eq_none (not_lt.1 ha),
        List.getElem?_eq_none (not_lt.1 hb)]
      exact ih

theorem project_mem_cells (m : Marginal) {shape cell : List Nat} (h : cell ∈ Tensor.cells shape) :
    m.project cell ∈ Tensor.cells (m.project shape) :=
  Tensor.mem_cells.2 (m.forall₂_project (Tensor.mem_cells.1 h))

theorem project_mem_cells_of_mem_map {α : Type} (m : Marginal) {shape : List Nat}
    {F : Multiset (List Nat × α)} (h : ∀ x ∈ F, x.1 ∈ Tensor.cells shape) :
    ∀ x ∈ F.map fun x => (m.project x.1, x.2), x.1 ∈ Tensor.cells (m.project shape) := by
  intro x hx
  obtain ⟨y, hy, rfl⟩ := Multiset.mem_map.1 hx
  exact m.project_mem_cells (h y hy)

/-! ### Kept axes -/

theorem keptShape_eq_keptCell (axes : List (Nat × Bool)) :
    Tensor.keptShape axes = Tensor.keptCell axes (axes.map (·.1)) := by
  induction axes with
  | nil => rfl
  | cons axis axes ih =>
    obtain ⟨n, kept⟩ := axis
    have ih' : (axes.filter (·.2)).map (·.1) = Tensor.keptCell axes (axes.map (·.1)) := ih
    cases kept <;> simp [Tensor.keptShape, Tensor.keptCell, ih']

/-- Where the axes that are kept are told by their numbers, so are the coordinates. -/
theorem keptCell_mapIdx (p : Nat → Bool) {shape cell : List Nat} (h : cell.length = shape.length) :
    Tensor.keptCell (shape.mapIdx fun i n => (n, p i)) cell =
      ((List.range shape.length).filter p).filterMap fun i => cell[i]? := by
  induction shape generalizing cell p with
  | nil => cases cell <;> simp [Tensor.keptCell]
  | cons n shape ih =>
    cases cell with
    | nil => simp at h
    | cons i cell =>
      have ih' := ih (fun j => p (j + 1)) (by simpa using h)
      rw [List.length_cons, List.range_succ_eq_map, List.mapIdx_cons, List.filter_cons]
      have hrest : List.filterMap (fun j => (i :: cell)[j]?)
          (((List.range shape.length).map Nat.succ).filter p) =
          ((List.range shape.length).filter fun j => p (j + 1)).filterMap fun j => cell[j]? := by
        rw [List.filter_map, List.filterMap_map]
        rfl
      cases hp : p 0
      · simp [Tensor.keptCell, ih', hrest]
      · simp [Tensor.keptCell, ih', hrest]

/-- The numbers of the axes ascend. -/
theorem pairwise_axes (m : Marginal) : (m.axes.map (·.index)).Pairwise (· < ·) := by
  cases m <;> decide

theorem filter_range_axes (m : Marginal) (n : Nat) :
    (List.range n).filter (m.axes.map (·.index)).contains =
      (m.axes.map (·.index)).filter (· < n) := by
  refine List.Perm.eq_of_pairwise' (r := (· < ·)) ?_ ?_ ?_
  · exact List.pairwise_lt_range.filter _
  · exact m.pairwise_axes.filter _
  · refine (List.perm_ext_iff_of_nodup ?_ ?_).2 fun i => ?_
    · exact List.nodup_range.filter _
    · exact (m.pairwise_axes.imp fun h => h.ne).filter _
    · simp [and_comm]

theorem keptCell_markAxes (m : Marginal) {shape cell : List Nat}
    (h : cell.length = shape.length) :
    Tensor.keptCell (Tensor.markAxes (m.axes.map (·.index)) shape) cell = m.project cell := by
  rw [Tensor.markAxes, keptCell_mapIdx _ h, filter_range_axes, project, ← h]
  induction m.axes with
  | nil => rfl
  | cons a axes ih =>
    rw [List.map_cons, List.filter_cons]
    by_cases ha : a.index < cell.length
    · simpa [ha] using ih
    · simpa [ha] using ih

theorem keptShape_markAxes (m : Marginal) (shape : List Nat) :
    Tensor.keptShape (Tensor.markAxes (m.axes.map (·.index)) shape) = m.project shape := by
  rw [keptShape_eq_keptCell, Tensor.map_fst_markAxes, keptCell_markAxes m rfl]

end Marginal

section

variable {α : Type} [Field α] [LinearOrder α] [FloorRing α]

namespace Marginal

@[simp]
theorem complement_complement (p : α) : complement (complement p) = p := by
  simp [complement]

/-- A cell of a marginal combines the cells with its coordinates. -/
theorem ofComplement_ofCells (m : Marginal) (shape : List Nat) (f : List Nat → α) :
    m.ofComplement (Tensor.ofCells shape f) = Tensor.ofCells (m.project shape) fun c =>
      1 - productWhere (entries shape f) (m.project · = c) := by
  rw [ofComplement, Tensor.foldOver_ofCells, Tensor.map_ofCells, keptShape_markAxes]
  refine Tensor.ofCells_congr fun c _ => ?_
  rw [complement]
  congr 1
  refine productWhere_congr fun x hx => ?_
  obtain ⟨cell, hcell, rfl⟩ := List.mem_map.1 (Multiset.mem_coe.1 hx)
  rw [keptCell_markAxes m (Tensor.length_of_mem_cells hcell)]

/-- The marginal of factors that belong to the cells of a shape. -/
def ofFactors (m : Marginal) (shape : List Nat) (F : Multiset (List Nat × α)) : Tensor α :=
  Tensor.ofCells (m.project shape) fun c => 1 - productWhere F (m.project · = c)

@[simp]
theorem shape_ofFactors (m : Marginal) (shape : List Nat) (F : Multiset (List Nat × α)) :
    (m.ofFactors shape F).shape = m.project shape := rfl

theorem get?_ofFactors (m : Marginal) {shape cell : List Nat} (F : Multiset (List Nat × α))
    (h : cell ∈ Tensor.cells (m.project shape)) :
    (m.ofFactors shape F).get? cell = some (1 - productWhere F (m.project · = cell)) :=
  Tensor.get?_ofCells _ h

/-- The marginal of factors that were multiplied cell by cell. -/
theorem ofComplement_gathered (m : Marginal) {shape : List Nat} {F : Multiset (List Nat × α)}
    (h : ∀ x ∈ F, x.1 ∈ Tensor.cells shape) :
    m.ofComplement (Tensor.ofCells shape fun c => productWhere F (· = c)) =
      m.ofFactors shape F := by
  rw [ofComplement_ofCells, ofFactors]
  refine Tensor.ofCells_congr fun c _ => ?_
  rw [productWhere_gathered h]

/-- A marginal is recovered from one that keeps its axes and others beside them. -/
theorem ofFactors_coarsen {fine coarse : Marginal} (haxes : coarse.axes ⊆ fine.axes)
    {shape : List Nat} (hrank : shape.length = 6) {F : Multiset (List Nat × α)}
    (h : ∀ x ∈ F, x.1 ∈ Tensor.cells shape) (cell : List Nat) :
    productWhere (entries (fine.project shape) fun c => 1 - (1 - productWhere F (fine.project · = c)))
      (fine.coarsen coarse · = cell) = productWhere F (coarse.project · = cell) := by
  calc productWhere (entries (fine.project shape) fun c =>
        1 - (1 - productWhere F (fine.project · = c))) (fine.coarsen coarse · = cell)
      = productWhere (entries (fine.project shape) fun c =>
          productWhere (F.map fun x => (fine.project x.1, x.2)) (· = c))
          (fine.coarsen coarse · = cell) := by
        simp only [sub_sub_cancel, productWhere_map]
    _ = productWhere F fun c => fine.coarsen coarse (fine.project c) = cell := by
        rw [productWhere_gathered (fine.project_mem_cells_of_mem_map h), productWhere_map]
    _ = productWhere F (coarse.project · = cell) := by
        refine productWhere_congr fun x hx => ?_
        rw [coarsen_project haxes ((Tensor.length_of_mem_cells (h x hx)).trans hrank)]

end Marginal

theorem anyOf_eq (ps : List α) : anyOf ps = 1 - (ps.map fun p => 1 - p).prod := by
  rw [anyOf, List.prod_eq_foldl, List.foldl_map]

/-- The overall probability of a marginal is that of all factors, whatever the marginal. -/
theorem Marginal.anyOf_ofFactors (m : Marginal) {shape : List Nat} {F : Multiset (List Nat × α)}
    (h : ∀ x ∈ F, x.1 ∈ Tensor.cells shape) :
    anyOf (m.ofFactors shape F).toList = 1 - (F.map (·.2)).prod := by
  have hall := productWhere_gathered (m.project_mem_cells_of_mem_map h) fun _ => True
  simp only [productWhere_map, productWhere_entries] at hall
  have hfactors : productWhere F (fun _ => True) = (F.map (·.2)).prod := by simp [productWhere]
  rw [hfactors] at hall
  rw [anyOf_eq, Marginal.ofFactors, Tensor.toList_ofCells, List.map_map, ← hall]
  simp [Function.comp_def]

namespace Marginals

/-- The marginals of factors that belong to the cells of a shape. -/
def ofFactors (kinds : List Marginal) (shape : List Nat) (F : Multiset (List Nat × α)) :
    Marginals α :=
  ⟨kinds.map fun kind => (kind, kind.ofFactors shape F)⟩

theorem mem_views_ofFactors {kinds : List Marginal} {shape : List Nat}
    {F : Multiset (List Nat × α)} {kind : Marginal} {t : Tensor α} :
    (kind, t) ∈ (ofFactors kinds shape F).views ↔ kind ∈ kinds ∧ t = kind.ofFactors shape F := by
  simp only [ofFactors, List.mem_map, Prod.mk.injEq]
  constructor
  · rintro ⟨kind, h, rfl, rfl⟩
    exact ⟨h, rfl⟩
  · rintro ⟨h, rfl⟩
    exact ⟨kind, h, rfl, rfl⟩

theorem map_fst_views_ofFactors (kinds : List Marginal) (shape : List Nat)
    (F : Multiset (List Nat × α)) : (ofFactors kinds shape F).views.map (·.1) = kinds := by
  rw [ofFactors, List.map_map]
  exact List.map_id _

/-- Every marginal gives the overall probability of all factors. -/
theorem aggregates_ofFactors (kinds : List Marginal) {shape : List Nat}
    {F : Multiset (List Nat × α)} (h : ∀ x ∈ F, x.1 ∈ Tensor.cells shape) :
    (ofFactors kinds shape F).aggregates =
      List.replicate kinds.length (1 - (F.map (·.2)).prod) := by
  refine List.eq_replicate_iff.2 ⟨?_, fun p hp => ?_⟩
  · simp [aggregates, ofFactors]
  · obtain ⟨⟨kind, t⟩, hview, rfl⟩ := List.mem_map.1 hp
    obtain ⟨-, rfl⟩ := mem_views_ofFactors.1 hview
    exact kind.anyOf_ofFactors h

/-- The marginals of a joint distribution whose cells gather factors. -/
theorem ofJoint_gathered (kinds : List Marginal) {shape : List Nat} {F : Multiset (List Nat × α)}
    (h : ∀ x ∈ F, x.1 ∈ Tensor.cells shape) :
    ofJoint kinds ((Tensor.ofCells shape fun c => productWhere F (· = c)).map Marginal.complement) =
      ofFactors kinds shape F := by
  simp only [ofJoint, ofFactors, Tensor.map_ofCells, Marginal.complement_complement,
    Marginal.ofComplement_gathered _ h]

/-- Combining two results takes their factors together. -/
theorem combine_ofFactors (site : String) (kinds : List Marginal) (shape : List Nat)
    (F G : Multiset (List Nat × α)) :
    (ofFactors kinds shape F).combine site (ofFactors kinds shape G) =
      (ofFactors kinds shape (F + G), none) := by
  have hviews : ∀ kinds : List Marginal,
      combineViews site (kinds.map fun kind => (kind, kind.ofFactors shape F))
        (kinds.map fun kind => (kind, kind.ofFactors shape G)) =
      (kinds.map fun kind => (kind, kind.ofFactors shape (F + G)), none) := by
    intro kinds
    induction kinds with
    | nil => rfl
    | cons kind kinds ih =>
      have hzip : (kind.ofFactors shape F).zipWith eitherOf (kind.ofFactors shape G) rfl =
          kind.ofFactors shape (F + G) := by
        simp only [Marginal.ofFactors, Tensor.zipWith_ofCells, eitherOf, productWhere_add]
        refine Tensor.ofCells_congr fun c _ => ?_
        ring
      simp only [List.map_cons, combineViews, ih, hzip]
      simp
  simp [combine, ofFactors, hviews]

end Marginals

end

end SeismicHazard
