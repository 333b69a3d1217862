import Mathlib.Data.List.Nodup
import SeismicHazard.Tensor

/-!
# Tensors cell by cell

A tensor is given by its extents and the value in each of its cells.

* `Tensor.ofCells`: the tensor with given values.
* `Tensor.get?`: the value in a cell.
* `Tensor.mem_cells`: the cells of a shape are the coordinates below its extents.
* `Tensor.eq_of_get?_eq`: the values in the cells determine the tensor.
* `Tensor.map_ofCells`, `Tensor.zipWith_ofCells`, `Tensor.modify_ofCells`: the operations of tensors
  cell by cell.
-/

namespace SeismicHazard.Tensor

/-! ### Cells and their places -/

theorem mem_cells {shape cell : List Nat} :
    cell ∈ cells shape ↔ List.Forall₂ (· < ·) cell shape := by
  induction shape generalizing cell with
  | nil => simp [cells]
  | cons n shape ih =>
    simp only [cells, List.mem_flatMap, List.mem_map, List.mem_range]
    constructor
    · rintro ⟨i, hi, rest, hrest, rfl⟩
      exact .cons hi (ih.1 hrest)
    · intro h
      cases h with
      | cons hi hrest => exact ⟨_, hi, _, ih.2 hrest, rfl⟩

theorem length_of_mem_cells {shape cell : List Nat} (h : cell ∈ cells shape) :
    cell.length = shape.length :=
  (mem_cells.1 h).length_eq

theorem nodup_cells (shape : List Nat) : (cells shape).Nodup := by
  induction shape with
  | nil => simp [cells]
  | cons n shape ih =>
    rw [cells, List.nodup_flatMap]
    constructor
    · intro i _
      exact ih.map fun a b h => (List.cons.inj h).2
    · refine List.nodup_range.imp fun {i j} hij => ?_
      intro cell hi hj
      obtain ⟨a, -, rfl⟩ := List.mem_map.1 hi
      obtain ⟨b, -, h⟩ := List.mem_map.1 hj
      exact hij (List.cons.inj h).1.symm

/-- The entry at a place of a list that is put together from parts of one length. -/
theorem getElem?_flatMap_of_length {β γ : Type} {f : β → List γ} {m : Nat} {xs : List β}
    (h : ∀ x ∈ xs, (f x).length = m) (i : Nat) {j : Nat} (hj : j < m) :
    (xs.flatMap f)[i * m + j]? = xs[i]?.bind fun x => (f x)[j]? := by
  induction xs generalizing i with
  | nil => simp
  | cons x xs ih =>
    have hx : (f x).length = m := h x List.mem_cons_self
    rw [List.flatMap_cons]
    cases i with
    | zero =>
      rw [List.getElem?_append_left (by omega)]
      simp
    | succ i =>
      rw [List.getElem?_append_right (by rw [hx, Nat.succ_mul]; omega), hx, Nat.succ_mul,
        show i * m + m + j - m = i * m + j by omega]
      simpa using ih (fun y hy => h y (List.mem_cons_of_mem _ hy)) i

theorem position_lt {shape cell : List Nat} (h : cell ∈ cells shape) :
    position shape cell < cellCount shape := by
  induction shape generalizing cell with
  | nil =>
    simp only [cells, List.mem_singleton] at h
    subst h
    simp [position, cellCount]
  | cons n shape ih =>
    cases mem_cells.1 h with
    | @cons i _ rest _ hi hrest =>
      have hp := ih (mem_cells.2 hrest)
      calc i * cellCount shape + position shape rest
          < i * cellCount shape + cellCount shape := by omega
        _ = (i + 1) * cellCount shape := (Nat.succ_mul i _).symm
        _ ≤ n * cellCount shape := Nat.mul_le_mul_right _ hi

theorem getElem?_position {shape cell : List Nat} (h : cell ∈ cells shape) :
    (cells shape)[position shape cell]? = some cell := by
  induction shape generalizing cell with
  | nil =>
    simp only [cells, List.mem_singleton] at h
    subst h
    rfl
  | cons n shape ih =>
    cases mem_cells.1 h with
    | @cons i _ rest _ hi hrest =>
      have hmem := mem_cells.2 hrest
      have hlength : ∀ j ∈ List.range n, ((cells shape).map (j :: ·)).length = cellCount shape := by
        simp [length_cells]
      rw [cells, position, getElem?_flatMap_of_length hlength i (position_lt hmem)]
      simp [hi, ih hmem]

theorem position_eq_of_getElem? {shape cell : List Nat} {i : Nat}
    (h : (cells shape)[i]? = some cell) : position shape cell = i := by
  obtain ⟨hi, hget⟩ := List.getElem?_eq_some_iff.1 h
  obtain ⟨hj, hget'⟩ :=
    List.getElem?_eq_some_iff.1 (getElem?_position (List.mem_of_getElem? h))
  exact (nodup_cells shape).getElem_inj_iff.1 (hget'.trans hget.symm)

/-! ### The tensor with given cells -/

section

variable {β γ : Type}

/-- The tensor with the given value in every cell. -/
def ofCells (shape : List Nat) (f : List Nat → β) : Tensor β where
  shape := shape
  values := ((cells shape).map f).toArray
  size_values := by simp [length_cells]

/-- The value in a cell. -/
def get? (t : Tensor β) (cell : List Nat) : Option β :=
  if cell ∈ cells t.shape then t.values[position t.shape cell]? else none

@[simp]
theorem toList_ofCells (shape : List Nat) (f : List Nat → β) :
    (ofCells shape f).toList = (cells shape).map f := by
  simp [toList, ofCells]

theorem get?_ofCells {shape cell : List Nat} (f : List Nat → β) (h : cell ∈ cells shape) :
    (ofCells shape f).get? cell = some (f cell) := by
  simp [get?, ofCells, h, getElem?_position h]

theorem eq_of_toList_eq {s t : Tensor β} (hshape : s.shape = t.shape) (h : s.toList = t.toList) :
    s = t := by
  obtain ⟨shape, ⟨values⟩, hs⟩ := s
  obtain ⟨shape', ⟨values'⟩, ht⟩ := t
  cases hshape
  cases h
  rfl

theorem ofCells_congr {shape : List Nat} {f g : List Nat → β} (h : ∀ c ∈ cells shape, f c = g c) :
    ofCells shape f = ofCells shape g :=
  eq_of_toList_eq rfl (by simpa using h)

theorem fill_eq_ofCells (shape : List Nat) (x : β) : fill shape x = ofCells shape fun _ => x :=
  eq_of_toList_eq rfl (by simp [fill, toList, ofCells, length_cells])

theorem map_ofCells (g : β → γ) (shape : List Nat) (f : List Nat → β) :
    (ofCells shape f).map g = ofCells shape fun c => g (f c) :=
  eq_of_toList_eq rfl (by simp [map, toList, ofCells])

theorem zipWith_ofCells (op : β → β → β) (shape : List Nat) (f g : List Nat → β) (h) :
    (ofCells shape f).zipWith op (ofCells shape g) h = ofCells shape fun c => op (f c) (g c) := by
  refine eq_of_toList_eq rfl ?_
  simp [zipWith, toList, ofCells, List.zipWith_map]

theorem isSome_get?_iff {t : Tensor β} {cell : List Nat} :
    (t.get? cell).isSome ↔ cell ∈ cells t.shape := by
  unfold get?
  split
  · next h => simp [h, t.size_values, position_lt h]
  · next h => simp [h]

theorem get?_zipWith (op : β → β → β) (s t : Tensor β) (h : s.shape = t.shape) (cell : List Nat) :
    (s.zipWith op t h).get? cell = Option.merge op (s.get? cell) (t.get? cell) := by
  unfold get?
  simp only [zipWith, h]
  split
  · next hcell =>
    have hlt := position_lt hcell
    have hs : position t.shape cell < s.values.size := by rwa [s.size_values, h]
    have ht : position t.shape cell < t.values.size := by rwa [t.size_values]
    rw [Array.getElem?_zipWith, Array.getElem?_eq_getElem hs, Array.getElem?_eq_getElem ht]
    rfl
  · rfl

/-- A tensor is determined by its shape and the values in its cells. -/
theorem eq_of_get?_eq {s t : Tensor β} (hshape : s.shape = t.shape)
    (h : ∀ cell, s.get? cell = t.get? cell) : s = t := by
  refine eq_of_toList_eq hshape (List.ext_getElem? fun i => ?_)
  cases hc : (cells t.shape)[i]? with
  | none =>
    have hlength : cellCount t.shape ≤ i := by
      rw [← length_cells]
      exact List.getElem?_eq_none_iff.1 hc
    rw [List.getElem?_eq_none (by rw [s.length_toList, hshape]; exact hlength),
      List.getElem?_eq_none (by rw [t.length_toList]; exact hlength)]
  | some cell =>
    have hget := h cell
    have hmem : cell ∈ cells t.shape := List.mem_of_getElem? hc
    simp only [get?, hshape, if_pos hmem, position_eq_of_getElem? hc] at hget
    simpa [toList] using hget

/-- Every tensor is given by its cells. -/
theorem exists_ofCells (t : Tensor β) (x : β) : ∃ f, t = ofCells t.shape f := by
  refine ⟨fun cell => (t.get? cell).getD x, eq_of_get?_eq rfl fun cell => ?_⟩
  by_cases hcell : cell ∈ cells t.shape
  · rw [get?_ofCells _ hcell]
    obtain ⟨y, hy⟩ := Option.isSome_iff_exists.1 (isSome_get?_iff.2 hcell)
    rw [hy]
    rfl
  · have hnone (s : Tensor β) (hs : s.shape = t.shape) : s.get? cell = none :=
      Option.not_isSome_iff_eq_none.1 fun h => hcell (hs ▸ isSome_get?_iff.1 h)
    exact (hnone t rfl).trans (hnone (ofCells t.shape _) rfl).symm

/-- A change at the place of a cell is a change of that cell. -/
theorem modify_ofCells {shape cell : List Nat} (f : List Nat → β) (g : β → β)
    (h : cell ∈ cells shape) : (ofCells shape f).modify (position shape cell) g =
      ofCells shape fun c => if c = cell then g (f c) else f c := by
  refine eq_of_toList_eq rfl (List.ext_getElem? fun i => ?_)
  have hplace : ∀ c, (cells shape)[i]? = some c → (position shape cell = i ↔ c = cell) := by
    intro c hc
    constructor
    · rintro rfl
      rw [getElem?_position h] at hc
      exact (Option.some.inj hc).symm
    · rintro rfl
      exact position_eq_of_getElem? hc
  cases hc : (cells shape)[i]? with
  | none =>
    have hlength : (cells shape).length ≤ i := List.getElem?_eq_none_iff.1 hc
    simpa [modify, toList, ofCells, hc] using hlength
  | some c =>
    simp only [modify, toList, ofCells, Array.getElem?_toList, Array.getElem?_modify]
    simp [hc, hplace c hc]
    split <;> rfl

end

end SeismicHazard.Tensor
