import Mathlib.Algebra.Order.BigOperators.Group.List
import Mathlib.Data.Rat.Floor
import Mathlib.Tactic.Linarith
import SeismicHazard.Blocks
import SeismicHazard.Proofs.Number.Exact

/-!
# Blocks share out a list

However a list is cut into blocks, nothing is lost, the blocks are about as many as asked for, and none
of them is too heavy unless it is a single item.

* `flatten_blocks`: blocks put together again are the list that was cut, whatever the weights are.
* `ne_nil_of_mem_blocks`, `length_blocks_le`: no block is empty, and there are less than twice as many
  as asked for.
* `load`: what a list of items weighs.
* `blocks_share_load`: the blocks of any list of items.
-/

namespace SeismicHazard

section

variable {α β : Type}

theorem ceilDiv_pos {a b : Nat} (ha : 0 < a) (hb : 0 < b) : 0 < ceilDiv a b :=
  Nat.div_pos (by omega) hb

theorem le_mul_ceilDiv (a : Nat) {b : Nat} (hb : 0 < b) : a ≤ b * ceilDiv a b := by
  have hmod := Nat.div_add_mod (a + b - 1) b
  have hlt := Nat.mod_lt (a + b - 1) hb
  unfold ceilDiv
  omega

theorem flatten_evenBlocks {size : Nat} (hsize : 0 < size) (fuel : Nat) (xs : List β)
    (hfuel : xs.length ≤ fuel) : (evenBlocks size fuel xs).flatten = xs := by
  induction fuel generalizing xs with
  | zero =>
    have hnil : xs = [] := List.length_eq_zero_iff.1 (by omega)
    rw [hnil]
    rfl
  | succ fuel ih =>
    cases xs with
    | nil => rfl
    | cons x xs =>
      have hdrop : ((x :: xs).drop size).length ≤ fuel := by
        rw [List.length_drop]
        omega
      rw [evenBlocks, List.flatten_cons, ih _ hdrop, List.take_append_drop]
      exact fun h => List.cons_ne_nil x xs h

theorem ne_nil_of_mem_evenBlocks {size : Nat} (hsize : 0 < size) {fuel : Nat} {xs block : List β}
    (h : block ∈ evenBlocks size fuel xs) : block ≠ [] := by
  induction fuel generalizing xs with
  | zero => cases h
  | succ fuel ih =>
    cases xs with
    | nil => cases h
    | cons x xs =>
      rw [evenBlocks] at h
      · rcases List.mem_cons.1 h with rfl | h
        · rw [Ne, List.take_eq_nil_iff]
          exact not_or.2 ⟨hsize.ne', List.cons_ne_nil x xs⟩
        · exact ih h
      · exact fun hnil => List.cons_ne_nil x xs hnil

/-- As many blocks are enough as it takes to hold all items. -/
theorem length_evenBlocks_le {size count : Nat} (fuel : Nat) (xs : List β)
    (h : xs.length ≤ count * size) : (evenBlocks size fuel xs).length ≤ count := by
  induction fuel generalizing xs count with
  | zero => exact Nat.zero_le _
  | succ fuel ih =>
    cases xs with
    | nil => exact Nat.zero_le _
    | cons x xs =>
      cases count with
      | zero => simp at h
      | succ count =>
        rw [evenBlocks, List.length_cons]
        · refine Nat.succ_le_succ (ih _ ?_)
          rw [List.length_drop]
          rw [Nat.succ_mul] at h
          omega
        · exact fun hnil => List.cons_ne_nil x xs hnil

/-- All blocks but the last are full. -/
theorem length_of_mem_dropLast_evenBlocks {size fuel : Nat} {xs block : List β}
    (h : block ∈ (evenBlocks size fuel xs).dropLast) : block.length = size := by
  induction fuel generalizing xs with
  | zero => cases h
  | succ fuel ih =>
    cases xs with
    | nil => cases h
    | cons x xs =>
      rw [evenBlocks] at h
      · set rest := (x :: xs).drop size with hrest
        by_cases hlast : evenBlocks size fuel rest = []
        · rw [hlast] at h
          cases h
        · rw [List.dropLast_cons_of_ne_nil hlast] at h
          rcases List.mem_cons.1 h with rfl | h
          · -- another block follows, so there are items behind this one
            have hne : rest ≠ [] := by
              intro hnil
              rw [hnil] at hlast
              cases fuel <;> exact hlast rfl
            have hlength := List.length_pos_iff.2 hne
            rw [hrest, List.length_drop] at hlength
            exact List.length_take_of_le (by omega)
          · exact ih h
      · exact fun hnil => List.cons_ne_nil x xs hnil

theorem length_le_of_mem_evenBlocks {size fuel : Nat} {xs block : List β}
    (h : block ∈ evenBlocks size fuel xs) : block.length ≤ size := by
  induction fuel generalizing xs with
  | zero => cases h
  | succ fuel ih =>
    cases xs with
    | nil => cases h
    | cons x xs =>
      rw [evenBlocks] at h
      · rcases List.mem_cons.1 h with rfl | h
        · exact List.length_take_le _ _
        · exact ih h
      · exact fun hnil => List.cons_ne_nil x xs hnil

variable [Scalar α]

theorem flatten_fillBlocks (limit : α) (items : List (β × α)) (opened : List β) (w : α) :
    (fillBlocks limit opened w items).flatten = opened ++ items.map (·.1) := by
  induction items generalizing opened w with
  | nil => cases opened <;> simp [fillBlocks]
  | cons item items ih =>
    obtain ⟨x, wx⟩ := item
    cases opened with
    | nil =>
      rw [fillBlocks, ih]
      rfl
    | cons y opened =>
      rw [fillBlocks]
      split
      · rw [List.flatten_cons, ih]
        rfl
      · rw [ih]
        simp

/-- Cutting a list into blocks loses nothing and repeats nothing, also if all weights are zero. -/
theorem flatten_blocks (items : List β) (hint : Nat) (weight : β → α) :
    (blocks items hint weight).flatten = items := by
  unfold blocks
  simp only
  split
  · cases items with
    | nil => rfl
    | cons x xs =>
      exact flatten_evenBlocks (ceilDiv_pos (Nat.succ_pos xs.length) (by omega)) _ _ (le_refl _)
  · rw [flatten_fillBlocks, List.nil_append, List.map_fst_zip (by simp)]

theorem ne_nil_of_mem_fillBlocks {limit : α} {items : List (β × α)} {opened block : List β} {w : α}
    (h : block ∈ fillBlocks limit opened w items) : block ≠ [] := by
  induction items generalizing opened w with
  | nil =>
    cases opened with
    | nil => cases h
    | cons y opened =>
      rw [List.mem_singleton.1 h]
      exact List.cons_ne_nil y opened
  | cons item items ih =>
    obtain ⟨x, wx⟩ := item
    cases opened with
    | nil => exact ih h
    | cons y opened =>
      rw [fillBlocks] at h
      split at h
      · rcases List.mem_cons.1 h with rfl | h
        · exact List.cons_ne_nil y opened
        · exact ih h
      · exact ih h

/-- No block is empty. -/
theorem ne_nil_of_mem_blocks {items : List β} {hint : Nat} {weight : β → α} {block : List β}
    (h : block ∈ blocks items hint weight) : block ≠ [] := by
  unfold blocks at h
  simp only at h
  split at h
  · cases items with
    | nil => cases h
    | cons x xs =>
      exact ne_nil_of_mem_evenBlocks (ceilDiv_pos (Nat.succ_pos xs.length) (by omega)) h
  · exact ne_nil_of_mem_fillBlocks h

end

section

variable {α β : Type} [Field α] [LinearOrder α] [FloorRing α]

/-- What a list of items weighs, where a negative weight counts as zero. -/
def load (weight : β → α) (xs : List β) : α := (xs.map fun x => max (weight x) 0).sum

theorem effectiveWeight_eq (weight : β → α) (x : β) : effectiveWeight weight x = max (weight x) 0 :=
  Scalar.max_eq _ _

theorem map_effectiveWeight (weight : β → α) (xs : List β) :
    xs.map (effectiveWeight weight) = xs.map fun x => max (weight x) 0 :=
  List.map_congr_left fun x _ => effectiveWeight_eq weight x

theorem totalWeight_eq (weight : β → α) (xs : List β) :
    totalWeight (xs.map (effectiveWeight weight)) = load weight xs := by
  rw [load, ← map_effectiveWeight, List.sum_eq_foldl]
  rfl

/-- Items without any weight are cut by number, others by weight. -/
theorem blocks_eq (items : List β) (hint : ℕ) (weight : β → α) : blocks items hint weight =
    if load weight items ≤ 0 then
      evenBlocks (ceilDiv items.length (max hint 1)) items.length items
    else
      fillBlocks (⌈load weight items / (max hint 1 : ℕ)⌉ : α) [] 0
        (items.map fun x => (x, max (weight x) 0)) := by
  have hzip : items.zip (items.map (effectiveWeight weight)) =
      items.map fun x => (x, max (weight x) 0) := by
    have h := @List.zip_map' _ _ _ id (fun x => max (weight x) 0) items
    rw [List.map_id] at h
    rw [map_effectiveWeight]
    exact h
  unfold blocks
  simp only [totalWeight_eq, hzip, Scalar.ofNat_eq]
  rfl

theorem load_append (weight : β → α) (xs ys : List β) :
    load weight (xs ++ ys) = load weight xs + load weight ys := by
  rw [load, List.map_append, List.sum_append]
  rfl

/-- A block of two items or more is not heavier than the limit. -/
theorem load_le_of_mem_fillBlocks {weight : β → α} {limit : α} {items opened : List β}
    (hopened : 2 ≤ opened.length → load weight opened ≤ limit) {block : List β}
    (h : block ∈ fillBlocks limit opened (load weight opened)
      (items.map fun x => (x, max (weight x) 0))) (hlong : 2 ≤ block.length) :
    load weight block ≤ limit := by
  induction items generalizing opened with
  | nil =>
    cases opened with
    | nil => cases h
    | cons y opened =>
      rw [List.mem_singleton.1 h] at hlong ⊢
      exact hopened hlong
  | cons x items ih =>
    have hsingle : load weight [x] = 0 + max (weight x) 0 := by simp [load]
    have hshort : 2 ≤ [x].length → load weight [x] ≤ limit := by simp
    cases opened with
    | nil =>
      refine ih hshort ?_
      rw [hsingle]
      exact h
    | cons y opened =>
      rw [List.map_cons, fillBlocks] at h
      split at h
      · rcases List.mem_cons.1 h with rfl | h
        · exact hopened hlong
        · rw [← hsingle] at h
          exact ih hshort h
      · next hfits =>
        have happend : load weight (y :: opened ++ [x]) =
            load weight (y :: opened) + max (weight x) 0 := by
          rw [load_append, hsingle, zero_add]
        rw [← happend] at h hfits
        exact ih (fun _ => not_lt.1 hfits) h

variable [IsStrictOrderedRing α]

/-- Two neighbouring blocks weigh more than the limit together. So half as many times the limit as
there are blocks is less than the weight of all; the same with one block more, whose weight `v` and
that of the block in front of the items exceed the limit. -/
theorem lt_of_fillBlocks (limit : α) (items : List (β × α)) (hitems : ∀ item ∈ items, 0 ≤ item.2)
    (y : β) (opened : List β) (w : α) :
    let count := (fillBlocks limit (y :: opened) w items).length
    let total := w + (items.map (·.2)).sum
    (0 ≤ w → count = 1 ∨ (count / 2 : Nat) * limit < total) ∧
    ∀ v, limit < v + w → ((count + 1) / 2 : Nat) * limit < v + total := by
  induction items generalizing y opened w with
  | nil => simp [fillBlocks]
  | cons item items ih =>
    obtain ⟨x, wx⟩ := item
    have hwx : 0 ≤ wx := hitems _ List.mem_cons_self
    have hrest := fun item h => hitems item (List.mem_cons_of_mem _ h)
    simp only [List.map_cons, List.sum_cons]
    rw [fillBlocks]
    split
    · next hclose =>
      obtain ⟨halone, hpaired⟩ := ih hrest x [] (0 + wx)
      rw [List.length_cons]
      set count := (fillBlocks limit [x] (0 + wx) items).length
      set rest := (items.map (·.2)).sum
      constructor
      · intro _
        have := hpaired w (by rwa [zero_add])
        right
        linarith
      · intro v hv
        have hhalf : ((count + 1 + 1) / 2 : Nat) = (count / 2 : Nat) + 1 := by omega
        have hsum : 0 ≤ rest := List.sum_nonneg (by simpa using fun b a h => hrest (a, b) h)
        rw [hhalf, Nat.cast_succ, add_mul, one_mul]
        rcases halone (by linarith) with hone | hlt
        · have hzero : ((1 / 2 : Nat) : α) = 0 := Nat.cast_zero
          rw [hone, hzero]
          linarith
        · linarith
    · obtain ⟨halone, hpaired⟩ := ih hrest y (opened ++ [x]) (w + wx)
      rw [← add_assoc]
      refine ⟨fun hw => halone (by linarith), fun v hv => hpaired v (by linarith)⟩

/-- If the limit is at least an even share of the weight of all, there are less than twice as many
blocks as shares. -/
theorem length_fillBlocks_le {limit : α} (hlimit : 0 < limit) {shares : Nat} (hshares : 0 < shares)
    {items : List (β × α)} (hitems : ∀ item ∈ items, 0 ≤ item.2)
    (htotal : (items.map (·.2)).sum ≤ shares * limit) :
    (fillBlocks limit [] 0 items).length ≤ 2 * shares - 1 := by
  cases items with
  | nil => exact Nat.zero_le _
  | cons item items =>
    obtain ⟨x, wx⟩ := item
    have hwx : 0 ≤ wx := hitems _ List.mem_cons_self
    rw [fillBlocks, zero_add]
    rw [List.map_cons, List.sum_cons] at htotal
    rcases (lt_of_fillBlocks limit items
      (fun item h => hitems item (List.mem_cons_of_mem _ h)) x [] wx).1 hwx with hone | hlt
    · omega
    · by_contra hmany
      have hhalf : shares ≤ (fillBlocks limit [x] wx items).length / 2 := by omega
      have hpairs := mul_le_mul_of_nonneg_right (Nat.cast_le (α := α).2 hhalf) hlimit.le
      linarith

/-- There are less than twice as many blocks as asked for. -/
theorem length_blocks_le (items : List β) (hint : Nat) (weight : β → α) :
    (blocks items hint weight).length ≤ 2 * max hint 1 - 1 := by
  rw [blocks_eq]
  have hshares : 0 < max hint 1 := by omega
  split
  · have := length_evenBlocks_le items.length items (le_mul_ceilDiv items.length hshares)
    omega
  · next htotal =>
    have hcount : (0 : α) < (max hint 1 : ℕ) := Nat.cast_pos.2 hshares
    have hshare : load weight items / (max hint 1 : ℕ) ≤ _ := Int.le_ceil _
    refine length_fillBlocks_le ((div_pos (not_le.1 htotal) hcount).trans_le hshare) hshares
      (fun item h => ?_) ?_
    · obtain ⟨x, -, rfl⟩ := List.mem_map.1 h
      exact le_max_right _ _
    · rw [List.map_map]
      exact (div_le_iff₀' hcount).1 hshare

/-- Blocks share out a list of items. No block is empty, put together they are the items in order, and
there are less than twice as many as asked for; to ask for none is to ask for one. If the items weigh
anything then a block of two items or more weighs at most the even share, rounded up. If they weigh
nothing then there are at most as many blocks as asked for, all of the same length but for the last
one, which is not longer. -/
theorem blocks_share_load (items : List β) (hint : ℕ) (weight : β → α) :
    let made := blocks items hint weight
    let shares := max hint 1
    (∀ block ∈ made, block ≠ []) ∧ made.flatten = items ∧ made.length ≤ 2 * shares - 1 ∧
    (0 < load weight items → ∀ block ∈ made, 2 ≤ block.length →
      load weight block ≤ ⌈load weight items / shares⌉) ∧
    (load weight items = 0 → made.length ≤ shares ∧ ∃ size,
      (∀ block ∈ made.dropLast, block.length = size) ∧ ∀ block ∈ made, block.length ≤ size) := by
  intro made shares
  refine ⟨fun block h => ne_nil_of_mem_blocks h, flatten_blocks items hint weight,
    length_blocks_le items hint weight, fun hpos block hblock hlong => ?_, fun hzero => ?_⟩
  · have hmade : made = _ := blocks_eq items hint weight
    rw [if_neg (not_le.2 hpos)] at hmade
    rw [hmade] at hblock
    have hnone : 2 ≤ ([] : List β).length → load weight [] ≤ ⌈load weight items / shares⌉ := by simp
    exact load_le_of_mem_fillBlocks hnone hblock hlong
  · have hmade : made = _ := blocks_eq items hint weight
    rw [if_pos hzero.le] at hmade
    have hshares : 0 < shares := by omega
    rw [hmade]
    exact ⟨length_evenBlocks_le _ items (le_mul_ceilDiv items.length hshares), _,
      fun block h => length_of_mem_dropLast_evenBlocks h,
      fun block h => length_le_of_mem_evenBlocks h⟩

end

/-- Half of all weight is on one item, and another one has a negative weight. -/
theorem blocks_share_load_heavy :
    let weights : List ℚ := [1, 10, -1, 1, 2]
    let made := blocks weights 3 id
    made = [[1], [10], [-1, 1, 2]] ∧ 0 < load id weights ∧
      (∀ block ∈ made, 2 ≤ block.length → load id block ≤ 5) ∧ made.length ≤ 5 := by
  intro weights made
  have hpos : 0 < load id weights := by decide +kernel
  have hshare : ⌈load id weights / (max 3 1 : ℕ)⌉ = 5 := by decide +kernel
  obtain ⟨-, -, hlength, hload, -⟩ := blocks_share_load weights 3 id
  rw [hshare] at hload
  exact ⟨by decide +kernel, hpos, hload hpos, hlength⟩

end SeismicHazard
