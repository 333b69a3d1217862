import Mathlib.Algebra.BigOperators.Group.Finset.Piecewise
import SeismicHazard.Proofs.Tensor.Cells

/-!
# Products over cells

Factors that belong to cells are multiplied wherever their cells satisfy a condition. The product of
a tensor along some of its axes is such a product, whatever the rank and the extents.

* `productWhere`: the product of the factors whose cells satisfy a condition.
* `productWhere_gathered`: factors may first be multiplied cell by cell.
* `Tensor.foldOver_ofCells`: every cell of a tensor folded along some axes is the product over the
  cells that have its coordinates along the others.
-/

namespace SeismicHazard

section

variable {M : Type} [CommMonoid M]

/-- The product of the factors whose cells satisfy `p`. -/
def productWhere (F : Multiset (List Nat × M)) (p : List Nat → Prop) [DecidablePred p] : M :=
  ((F.filter fun x => p x.1).map (·.2)).prod

@[simp]
theorem productWhere_zero (p : List Nat → Prop) [DecidablePred p] :
    productWhere (0 : Multiset (List Nat × M)) p = 1 := by
  simp [productWhere]

@[simp]
theorem productWhere_cons (x : List Nat × M) (F : Multiset (List Nat × M)) (p : List Nat → Prop)
    [DecidablePred p] : productWhere (x ::ₘ F) p = (if p x.1 then x.2 else 1) * productWhere F p := by
  unfold productWhere
  by_cases h : p x.1 <;> simp [h]

@[simp]
theorem productWhere_add (F G : Multiset (List Nat × M)) (p : List Nat → Prop) [DecidablePred p] :
    productWhere (F + G) p = productWhere F p * productWhere G p := by
  simp [productWhere]

theorem productWhere_congr {F : Multiset (List Nat × M)} {p q : List Nat → Prop} [DecidablePred p]
    [DecidablePred q] (h : ∀ x ∈ F, p x.1 ↔ q x.1) : productWhere F p = productWhere F q := by
  unfold productWhere
  rw [Multiset.filter_congr h]

theorem productWhere_map (g : List Nat → List Nat) (F : Multiset (List Nat × M))
    (p : List Nat → Prop) [DecidablePred p] :
    productWhere (F.map fun x => (g x.1, x.2)) p = productWhere F fun c => p (g c) := by
  simp [productWhere, Multiset.filter_map]

theorem productWhere_eq_one {F : Multiset (List Nat × M)} {p : List Nat → Prop} [DecidablePred p]
    (h : ∀ x ∈ F, ¬ p x.1) : productWhere F p = 1 := by
  rw [productWhere, Multiset.filter_eq_nil.2 h]
  rfl

/-- Of factors that belong to different cells one at most belongs to a given cell. -/
theorem productWhere_mapIdx {f : Nat → List Nat} (hf : f.Injective) (xs : List M) (i : Nat) :
    productWhere (xs.mapIdx fun j x => (f j, x) : List (List Nat × M)) (· = f i) =
      xs[i]?.getD 1 := by
  induction xs generalizing f i with
  | nil => simp
  | cons x xs ih =>
    rw [List.mapIdx_cons, ← Multiset.cons_coe, productWhere_cons]
    cases i with
    | zero =>
      rw [productWhere_eq_one]
      · simp
      · intro y hy
        obtain ⟨j, -, rfl⟩ := List.mem_mapIdx.1 (Multiset.mem_coe.1 hy)
        exact hf.ne (Nat.succ_ne_zero j)
    | succ i =>
      rw [if_neg (hf.ne (Nat.succ_ne_zero i).symm), one_mul, List.getElem?_cons_succ]
      exact ih (hf.comp Nat.succ_injective) i

/-! ### Every cell once -/

/-- The cells of a shape, each with a value. -/
def entries (shape : List Nat) (f : List Nat → M) : Multiset (List Nat × M) :=
  ((Tensor.cells shape).map fun c => (c, f c) : List _)

theorem productWhere_entries (shape : List Nat) (f : List Nat → M) (p : List Nat → Prop)
    [DecidablePred p] :
    productWhere (entries shape f) p = (((Tensor.cells shape).filter p).map f).prod := by
  simp [productWhere, entries, List.filter_map, Function.comp_def]

theorem productWhere_entries_one (shape : List Nat) (p : List Nat → Prop) [DecidablePred p] :
    productWhere (entries shape fun _ => (1 : M)) p = 1 := by
  rw [productWhere_entries]
  exact List.prod_eq_one (by simp)

theorem productWhere_entries_mul (shape : List Nat) (f g : List Nat → M) (p : List Nat → Prop)
    [DecidablePred p] : productWhere (entries shape fun c => f c * g c) p =
      productWhere (entries shape f) p * productWhere (entries shape g) p := by
  simp only [productWhere_entries, List.prod_map_mul]

/-- A single factor among the cells of a shape. -/
theorem productWhere_entries_single {shape cell : List Nat} (h : cell ∈ Tensor.cells shape) (x : M)
    (p : List Nat → Prop) [DecidablePred p] :
    productWhere (entries shape fun c => if cell = c then x else 1) p = if p cell then x else 1 := by
  rw [productWhere_entries, ← List.prod_toFinset _ ((Tensor.nodup_cells shape).filter _),
    Finset.prod_ite_eq]
  simp [h]

/-- Factors may be multiplied cell by cell before the cells are. -/
theorem productWhere_gathered {shape : List Nat} {F : Multiset (List Nat × M)}
    (h : ∀ x ∈ F, x.1 ∈ Tensor.cells shape) (p : List Nat → Prop) [DecidablePred p] :
    productWhere (entries shape fun c => productWhere F (· = c)) p = productWhere F p := by
  induction F using Multiset.induction with
  | empty => simp [productWhere_entries_one]
  | cons x F ih =>
    have hx : x.1 ∈ Tensor.cells shape := h x (Multiset.mem_cons_self x F)
    have hF := ih fun y hy => h y (Multiset.mem_cons_of_mem hy)
    simp only [productWhere_cons, productWhere_entries_mul, hF]
    rw [productWhere_entries_single hx]

theorem entries_cons (n : Nat) (shape : List Nat) (f : List Nat → M) (p : List Nat → Prop)
    [DecidablePred p] : productWhere (entries (n :: shape) f) p =
      ∏ i ∈ Finset.range n, productWhere (entries shape fun c => f (i :: c)) fun c => p (i :: c) := by
  simp only [productWhere_entries, Tensor.cells, List.filter_flatMap, List.map_flatMap,
    List.filter_map, List.map_map, Function.comp_def]
  rw [List.flatMap_def, List.prod_flatten, List.map_map]
  rfl

/-! ### Folding -/

namespace Tensor

/-- The coordinates of a cell along the axes that are kept. -/
def keptCell : List (Nat × Bool) → List Nat → List Nat
  | (_, true) :: axes, i :: cell => i :: keptCell axes cell
  | (_, false) :: axes, _ :: cell => keptCell axes cell
  | _, _ => []

theorem chunks_flatMap {β γ : Type} {f : β → List γ} {m : Nat} (xs : List β)
    (h : ∀ x ∈ xs, (f x).length = m) : chunks m xs.length (xs.flatMap f) = xs.map f := by
  induction xs with
  | nil => rfl
  | cons x xs ih =>
    have hx : (f x).length = m := h x List.mem_cons_self
    simp only [List.length_cons, chunks, List.flatMap_cons, List.map_cons]
    rw [List.take_left' hx, List.drop_left' hx, ih fun y hy => h y (List.mem_cons_of_mem _ hy)]

/-- Parts of one length put together again. -/
theorem flatten_chunks {β : Type} {size : ℕ} (n : ℕ) {xs : List β} (h : xs.length = n * size) :
    (chunks size n xs).flatten = xs := by
  induction n generalizing xs with
  | zero =>
    rw [Nat.zero_mul] at h
    rw [List.eq_nil_of_length_eq_zero h]
    rfl
  | succ n ih =>
    rw [Nat.succ_mul] at h
    rw [chunks, List.flatten_cons, ih (by rw [List.length_drop]; omega), List.take_append_drop]

/-- Parts over one list multiplied together, place by place. -/
theorem foldl_zipWith_map {β : Type} (places : List β) (g : Nat → β → M) (parts : List Nat)
    (start : β → M) :
    (parts.map fun i => places.map (g i)).foldl (List.zipWith (· * ·)) (places.map start) =
      places.map fun c => start c * (parts.map fun i => g i c).prod := by
  induction parts generalizing start with
  | nil => simp
  | cons i parts ih =>
    simp only [List.map_cons, List.foldl_cons, List.zipWith_map, List.zipWith_self, ih,
      List.prod_cons, mul_assoc]

theorem foldAxes_entries (axes : List (Nat × Bool)) (f : List Nat → M) :
    foldAxes axes ((cells (axes.map (·.1))).map f) = (cells (keptShape axes)).map fun c =>
      productWhere (entries (axes.map (·.1)) f) (keptCell axes · = c) := by
  induction axes generalizing f with
  | nil => simp [foldAxes, keptShape, cells, entries, keptCell, productWhere]
  | cons axis axes ih =>
    obtain ⟨n, kept⟩ := axis
    set shape := axes.map (·.1) with hshape
    have hparts : (chunks (cellCount shape) n ((cells (n :: shape)).map f)).map (foldAxes axes) =
        (List.range n).map fun i => (cells (keptShape axes)).map fun c =>
          productWhere (entries shape fun rest => f (i :: rest)) (keptCell axes · = c) := by
      have hlength : ∀ i ∈ List.range n, ((cells shape).map fun rest => f (i :: rest)).length =
          cellCount shape := by simp [length_cells]
      have hchunks := chunks_flatMap (List.range n) hlength
      rw [List.length_range] at hchunks
      rw [cells, List.map_flatMap]
      simp only [List.map_map, Function.comp_def, hchunks, ih]
    cases kept with
    | true =>
      have hkept : keptShape ((n, true) :: axes) = n :: keptShape axes := by simp [keptShape]
      simp only [foldAxes, List.map_cons, ← hshape, hparts, ↓reduceIte, hkept]
      simp only [cells, List.map_flatMap, List.map_map, ← List.flatMap_def]
      refine List.flatMap_congr fun i hi => List.map_congr_left fun c _ => ?_
      simp only [Function.comp_apply]
      rw [entries_cons, Finset.prod_eq_single i]
      · simp [keptCell]
      · intro j _ hj
        simp [keptCell, hj, productWhere]
      · intro h
        exact absurd (Finset.mem_range.2 (List.mem_range.1 hi)) h
    | false =>
      have hkept : keptShape ((n, false) :: axes) = keptShape axes := by simp [keptShape]
      simp only [foldAxes, List.map_cons, ← hshape, hparts, Bool.false_eq_true, ↓reduceIte, hkept]
      have hones : List.replicate (cellCount (keptShape axes)) (1 : M) =
          (cells (keptShape axes)).map fun _ => 1 := by simp [length_cells]
      rw [hones, foldl_zipWith_map]
      refine List.map_congr_left fun c _ => ?_
      rw [one_mul, entries_cons]
      rfl

/-- A cell of a folded tensor is the product over the cells with its coordinates. -/
theorem foldOver_ofCells (shape keep : List Nat) (f : List Nat → M) :
    (ofCells shape f).foldOver keep = ofCells (keptShape (markAxes keep shape)) fun c =>
      productWhere (entries shape f) (keptCell (markAxes keep shape) · = c) := by
  have h := foldAxes_entries (markAxes keep shape) f
  rw [map_fst_markAxes] at h
  refine eq_of_toList_eq rfl ?_
  rw [toList_ofCells, ← h, ← toList_ofCells shape f]
  rfl

end Tensor

end

end SeismicHazard
