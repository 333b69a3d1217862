import Mathlib.Data.List.Sort
import SeismicHazard.BinarySearch

/-!
# Where a binary search ends

On any list whose first entry satisfies a test the search ends next to a change, and no later than the
search for a weaker test.

* `partitionPointFrom_bounds`: a search stays within its range.
* `exists_partitionPoint_eq_succ`, `exists_partitionPoint_between`: the change next to which a search
  ends.
* `partitionPoint_mono`: searches for two tests of which one is weaker.
-/

namespace SeismicHazard

section

variable {β : Type} {p : β → Bool} {xs : List β}

theorem holdsAt_eq_true {i : Nat} : holdsAt p xs i = true ↔ ∃ x, xs[i]? = some x ∧ p x = true := by
  simp [holdsAt, Option.any_eq_true]

theorem holdsAt_mono {q : β → Bool} (h : ∀ x, p x = true → q x = true) {i : Nat}
    (hi : holdsAt p xs i = true) : holdsAt q xs i = true := by
  obtain ⟨x, hx, hpx⟩ := holdsAt_eq_true.1 hi
  exact holdsAt_eq_true.2 ⟨x, hx, h x hpx⟩

/-- A search ends within the range that it starts with. -/
theorem partitionPointFrom_bounds (steps base size : Nat) (hsize : 0 < size) :
    base ≤ partitionPointFrom p xs steps base size ∧
      partitionPointFrom p xs steps base size < base + size := by
  induction steps generalizing base size with
  | zero => simp only [partitionPointFrom]; omega
  | succ steps ih =>
    simp only [partitionPointFrom]
    split
    · omega
    · split
      · have hright := ih (base + size / 2) (size - size / 2) (by omega)
        omega
      · have hleft := ih base (size - size / 2) (by omega)
        omega

/-! ### Where the test changes -/

/-- A range whose first entry satisfies the test, and whose last entry or the one after it does not,
is halved until a change is found. -/
theorem partitionPointFrom_change (steps base size : Nat) (hsize : 0 < size)
    (hsteps : size ≤ steps + 1) (hbase : holdsAt p xs base = true)
    (hend : holdsAt p xs (base + size - 1) = false ∨ holdsAt p xs (base + size) = false) :
    holdsAt p xs (partitionPointFrom p xs steps base size) = true ∧
      holdsAt p xs (partitionPointFrom p xs steps base size + 1) = false := by
  induction steps generalizing base size with
  | zero =>
    have hone : size = 1 := by omega
    subst hone
    exact ⟨hbase, hend.resolve_left (by simp [hbase])⟩
  | succ steps ih =>
    simp only [partitionPointFrom]
    split
    · have hone : size = 1 := by omega
      subst hone
      exact ⟨hbase, hend.resolve_left (by simp [hbase])⟩
    · next hlarge =>
      cases hmid : holdsAt p xs (base + size / 2) with
      | true =>
        rw [if_pos rfl]
        refine ih _ _ (by omega) (by omega) hmid ?_
        rwa [show base + size / 2 + (size - size / 2) = base + size by omega]
      | false =>
        -- the middle becomes the last entry of an odd range, or the one after an even range
        rw [if_neg Bool.false_ne_true]
        refine ih _ _ (by omega) (by omega) hbase ?_
        rcases Nat.mod_two_eq_zero_or_one size with heven | hodd
        · right
          rwa [show base + (size - size / 2) = base + size / 2 by omega]
        · left
          rwa [show base + (size - size / 2) - 1 = base + size / 2 by omega]

/-- If the first entry satisfies the test, the search ends behind an entry that satisfies it and
before one that does not. -/
theorem exists_partitionPoint_eq_succ (hfirst : holdsAt p xs 0 = true) :
    ∃ i, partitionPoint p xs = i + 1 ∧ holdsAt p xs i = true ∧ holdsAt p xs (i + 1) = false := by
  obtain ⟨x, hx, -⟩ := holdsAt_eq_true.1 hfirst
  have hpos : 0 < xs.length := (List.getElem?_eq_some_iff.1 hx).1
  have hend : holdsAt p xs (0 + xs.length) = false := by simp [holdsAt]
  obtain ⟨hlast, hnext⟩ :=
    partitionPointFrom_change xs.length 0 xs.length hpos (by omega) hfirst (.inr hend)
  refine ⟨partitionPointFrom p xs xs.length 0 xs.length, ?_, hlast, hnext⟩
  unfold partitionPoint
  simp only [hlast, if_true]

/-- If the first entry satisfies the test and the last one does not, the search ends between two
entries that differ in the same way. -/
theorem exists_partitionPoint_between {first last : β} (hfirst : xs.head? = some first)
    (hlast : xs.getLast? = some last) (hpfirst : p first = true) (hplast : p last = false) :
    ∃ i x y, partitionPoint p xs = i + 1 ∧ xs[i]? = some x ∧ xs[i + 1]? = some y ∧ p x = true ∧
      p y = false := by
  have hstart : holdsAt p xs 0 = true :=
    holdsAt_eq_true.2 ⟨first, List.head?_eq_getElem? ▸ hfirst, hpfirst⟩
  obtain ⟨i, hplace, hholds, hstops⟩ := exists_partitionPoint_eq_succ hstart
  obtain ⟨x, hx, hpx⟩ := holdsAt_eq_true.1 hholds
  have hi : i < xs.length := (List.getElem?_eq_some_iff.1 hx).1
  have hnext : i + 1 < xs.length := by
    by_contra hend
    have hx' : xs[xs.length - 1]? = some x := by rwa [show xs.length - 1 = i by omega]
    rw [← List.getLast?_eq_getElem?, hlast] at hx'
    cases hx'
    rw [hpx] at hplast
    cases hplast
  have hy : xs[i + 1]? = some xs[i + 1] := List.getElem?_eq_getElem hnext
  refine ⟨i, x, _, hplace, hx, hy, hpx, Bool.eq_false_iff.2 fun hpy => ?_⟩
  rw [holdsAt_eq_true.2 ⟨_, hy, hpy⟩] at hstops
  cases hstops

/-! ### A weaker test -/

section

variable {q : β → Bool}

/-- From one place on, the search for a weaker test ends no earlier. -/
theorem partitionPointFrom_mono (h : ∀ x, p x = true → q x = true) (steps base size : Nat)
    (hsize : 0 < size) :
    partitionPointFrom p xs steps base size ≤ partitionPointFrom q xs steps base size := by
  induction steps generalizing base size with
  | zero => exact le_rfl
  | succ steps ih =>
    simp only [partitionPointFrom]
    split
    · exact le_rfl
    · have hhalf : 0 < size - size / 2 := by omega
      cases hp : holdsAt p xs (base + size / 2) with
      | true =>
        have hq := holdsAt_mono h hp
        rw [if_pos rfl, if_pos hq]
        exact ih _ _ hhalf
      | false =>
        rw [if_neg Bool.false_ne_true]
        cases hq : holdsAt q xs (base + size / 2) with
        | false => exact ih _ _ hhalf
        | true =>
          -- the searches part: what is left to the stronger test ends at the middle
          rw [if_pos rfl]
          have hleft := (@partitionPointFrom_bounds _ p xs steps base _ hhalf).2
          have hright := (@partitionPointFrom_bounds _ q xs steps (base + size / 2) _ hhalf).1
          omega

/-- The search for a weaker test ends no earlier, whatever the list. -/
theorem partitionPoint_mono (h : ∀ x, p x = true → q x = true) :
    partitionPoint p xs ≤ partitionPoint q xs := by
  rcases xs.eq_nil_or_concat with rfl | ⟨init, last, rfl⟩
  · simp [partitionPoint, partitionPointFrom, holdsAt]
  · set xs := init.concat last with hxs
    have hpos : 0 < xs.length := by simp [hxs]
    have hle := @partitionPointFrom_mono _ p xs q h xs.length 0 xs.length hpos
    unfold partitionPoint
    simp only
    split
    · next hp =>
      rcases hle.lt_or_eq with hlt | heq
      · split <;> omega
      · rw [heq] at hp ⊢
        rw [if_pos (holdsAt_mono h hp)]
    · split <;> omega

end

end

end SeismicHazard
