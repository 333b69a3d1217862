import SeismicHazard.Number.Scalar

/-!
# Arrays of any rank

A tensor has an extent along each of its axes and a value for every cell, in row-major order.

* `cellCount`: the number of cells.
* `Tensor.position`: the place of a cell.
* `Tensor.map`, `Tensor.zipWith`, `Tensor.modify`: new values, cell by cell.
* `Tensor.permute`: the axes in another order.
* `Tensor.foldAxes`: the product along axes that are dropped.
-/

namespace SeismicHazard

def cellCount : List Nat → Nat
  | [] => 1
  | n :: shape => n * cellCount shape

/-- Values in the cells of an array with the given extents, in row-major order. -/
structure Tensor (α : Type) where
  shape : List Nat
  values : Array α
  size_values : values.size = cellCount shape

namespace Tensor

section

variable {α β : Type}

def fill (shape : List Nat) (x : α) : Tensor α where
  shape := shape
  values := Array.replicate (cellCount shape) x
  size_values := by simp

/-- The tensor with the given values, if they are as many as it has cells. -/
def ofList? (shape : List Nat) (xs : List α) : Option (Tensor α) :=
  if h : xs.length = cellCount shape then some ⟨shape, xs.toArray, by simpa using h⟩ else none

def toList (t : Tensor α) : List α := t.values.toList

theorem length_toList (t : Tensor α) : t.toList.length = cellCount t.shape := by
  simpa [toList] using t.size_values

def map (f : α → β) (t : Tensor α) : Tensor β where
  shape := t.shape
  values := t.values.map f
  size_values := by simpa using t.size_values

def zipWith (f : α → α → α) (s t : Tensor α) (h : s.shape = t.shape) : Tensor α where
  shape := s.shape
  values := Array.zipWith f s.values t.values
  size_values := by simp [s.size_values, t.size_values, h]

/-- The function applied to the value at a place; a place beyond the cells changes nothing. -/
def modify (t : Tensor α) (i : Nat) (f : α → α) : Tensor α where
  shape := t.shape
  values := t.values.modify i f
  size_values := by simpa using t.size_values

/-- The place of a cell in row-major order. -/
def position : List Nat → List Nat → Nat
  | _ :: shape, i :: rest => i * cellCount shape + position shape rest
  | _, _ => 0

def cells : List Nat → List (List Nat)
  | [] => [[]]
  | n :: shape => (List.range n).flatMap fun i => (cells shape).map (i :: ·)

theorem length_cells (shape : List Nat) : (cells shape).length = cellCount shape := by
  induction shape with
  | nil => rfl
  | cons n shape ih =>
    simp only [cells, cellCount, List.length_flatMap, List.length_map, ih, List.map_const',
      List.length_range, List.sum_replicate_nat]

def gather? (t : Tensor α) (shape : List Nat) (places : List Nat) : Option (Tensor α) := do
  ofList? shape (← places.mapM fun i => t.values[i]?)

/-- The coordinate of a cell along an axis of the source, where `axes` names the axis of the source
for every coordinate. -/
def sourceCoordinate (axes cell : List Nat) (axis : Nat) : Nat :=
  ((axes.zip cell).find? (·.1 == axis)).elim 0 (·.2)

/-- The tensor whose axis `i` is the axis `axes[i]` of `t`, if `axes` is an order of its axes. -/
def permute (t : Tensor α) (axes : List Nat) : Option (Tensor α) := do
  let shape ← axes.mapM (t.shape[·]?)
  let places := (cells shape).map fun cell =>
    position t.shape ((List.range t.shape.length).map (sourceCoordinate axes cell))
  t.gather? shape places

end

section

variable {α : Type}

/-- The first `n` parts of `size` values. -/
def chunks (size : Nat) : Nat → List α → List (List α)
  | 0, _ => []
  | n + 1, xs => xs.take size :: chunks size n (xs.drop size)

def keptShape (axes : List (Nat × Bool)) : List Nat := (axes.filter (·.2)).map (·.1)

/-- The values in row-major order after multiplying along the axes that are not kept, the last axis
first. An axis without an entry leaves ones. -/
def foldAxes [One α] [Mul α] : List (Nat × Bool) → List α → List α
  | [], xs => xs
  | (n, kept) :: axes, xs =>
    let parts := (chunks (cellCount (axes.map (·.1))) n xs).map (foldAxes axes)
    if kept then parts.flatten
    else parts.foldl (List.zipWith (· * ·)) (List.replicate (cellCount (keptShape axes)) 1)

theorem length_chunks (size n : Nat) (xs : List α) : (chunks size n xs).length = n := by
  induction n generalizing xs with
  | zero => rfl
  | succ n ih => simp [chunks, ih]

theorem length_of_mem_chunks {size n : Nat} {xs part : List α} (h : xs.length = n * size)
    (hp : part ∈ chunks size n xs) : part.length = size := by
  induction n generalizing xs with
  | zero => simp [chunks] at hp
  | succ n ih =>
    rw [Nat.succ_mul] at h
    rcases List.mem_cons.1 hp with rfl | hp
    · simp; omega
    · exact ih (by simp; omega) hp

theorem length_foldl_zipWith [Mul α] {parts : List (List α)} {start : List α} {n : Nat}
    (h : ∀ part ∈ parts, part.length = n) (hs : start.length = n) :
    (parts.foldl (List.zipWith (· * ·)) start).length = n := by
  induction parts generalizing start with
  | nil => simpa using hs
  | cons part parts ih =>
    refine ih (fun p hp => h p (List.mem_cons_of_mem _ hp)) ?_
    simp [hs, h part List.mem_cons_self]

theorem length_flatten_of_forall {parts : List (List α)} {n : Nat}
    (h : ∀ part ∈ parts, part.length = n) : parts.flatten.length = parts.length * n := by
  induction parts with
  | nil => simp
  | cons part parts ih =>
    simp only [List.flatten_cons, List.length_append, List.length_cons, Nat.succ_mul]
    rw [h part List.mem_cons_self, ih fun p hp => h p (List.mem_cons_of_mem _ hp), Nat.add_comm]

theorem length_foldAxes [One α] [Mul α] (axes : List (Nat × Bool)) (xs : List α)
    (h : xs.length = cellCount (axes.map (·.1))) :
    (foldAxes axes xs).length = cellCount (keptShape axes) := by
  induction axes generalizing xs with
  | nil => simpa [foldAxes, keptShape] using h
  | cons axis axes ih =>
    obtain ⟨n, kept⟩ := axis
    have hparts : ∀ part ∈ (chunks (cellCount (axes.map (·.1))) n xs).map (foldAxes axes),
        part.length = cellCount (keptShape axes) := by
      intro part hp
      obtain ⟨source, hs, rfl⟩ := List.mem_map.1 hp
      exact ih source (length_of_mem_chunks (by simpa [cellCount] using h) hs)
    cases kept with
    | true =>
      simp only [foldAxes, ↓reduceIte]
      rw [length_flatten_of_forall hparts]
      simp [keptShape, cellCount, length_chunks]
    | false =>
      simp only [foldAxes, Bool.false_eq_true, ↓reduceIte]
      rw [length_foldl_zipWith hparts (by simp)]
      simp [keptShape]

def markAxes (keep : List Nat) (shape : List Nat) : List (Nat × Bool) :=
  shape.mapIdx fun i n => (n, keep.contains i)

theorem map_fst_markAxes (keep shape : List Nat) : (markAxes keep shape).map (·.1) = shape := by
  apply List.ext_getElem <;> simp [markAxes]

/-- The tensor over the kept axes that exist, multiplied along the others. -/
def foldOver [One α] [Mul α] (t : Tensor α) (keep : List Nat) : Tensor α where
  shape := keptShape (markAxes keep t.shape)
  values := (foldAxes (markAxes keep t.shape) t.toList).toArray
  size_values := by
    simpa using length_foldAxes _ _ (by rw [map_fst_markAxes, t.length_toList])

end

end Tensor

end SeismicHazard
