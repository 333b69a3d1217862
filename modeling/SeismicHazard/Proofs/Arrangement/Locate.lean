import Mathlib.Data.List.Sort
import Mathlib.Data.Rat.Floor
import SeismicHazard.Arrangement
import SeismicHazard.Proofs.BinarySearch
import SeismicHazard.Proofs.Number.WithNaN

/-!
# The bin of a value

* `FoundAt`: how a bin is found, also between edges that do not ascend or are no numbers. There is
  such a bin.
* `exists_locate?_iff`: the values between the ends of the edges have a bin.
* `anyNeighbours_eq_false_iff`: how ascending edges are told.
* `holds`, `binOf?`: what it means that a bin holds a value, and the first bin that does.
* `locate?_eq_binOf?`: between ascending edges the bin of a value is the one that holds it.
* `locate_spec`: which values have a bin, which one it is, and how it is found.
-/

namespace SeismicHazard

/-! ### Neighbours -/

theorem anyNeighbours_eq_false {β : Type} {r : β → β → Bool} {xs : List β} :
    anyNeighbours r xs = false ↔ xs.IsChain fun a b => r a b = false := by
  induction xs with
  | nil => simp [anyNeighbours]
  | cons a xs ih =>
    cases xs with
    | nil => simp [anyNeighbours]
    | cons b rest => rw [anyNeighbours, Bool.or_eq_false_iff, ih, List.isChain_cons_cons]

/-! ### Any edges -/

section

variable {β : Type} [Scalar β] {edges : List β} {value : β} {i : ℕ}

theorem locate_eq_ok {site : ℕ} {axis : Axis} :
    locate site axis edges value = .ok i ↔ locate? edges value = some i := by
  unfold locate
  cases locate? edges value <;> simp

theorem locate?_eq_some (h : locate? edges value = some i) :
    ∃ lo hi, edges.head? = some lo ∧ edges.getLast? = some hi ∧ 2 ≤ edges.length ∧ lo ≤ value ∧
      value ≤ hi ∧ i = if value == hi then edges.length - 2
        else partitionPoint (fun e => decide (e ≤ value)) edges - 1 := by
  unfold locate? at h
  split at h
  · next low second rest =>
    obtain ⟨high, hhigh⟩ : ∃ high, (low :: second :: rest).getLast? = some high :=
      ⟨_, List.getLast?_eq_some_getLast (by simp)⟩
    simp only [hhigh, Option.getD_some] at h
    split at h
    · next hrange =>
      refine ⟨low, high, rfl, hhigh, by simp, hrange.1, hrange.2, ?_⟩
      rw [← apply_ite some, Option.some.injEq] at h
      exact h.symm
    · cases h
  · cases h

/-- How the bin `i` is found: it is the last one for a value on the last edge, and else it is left of
the place where the search ends. In both cases there is such a bin. -/
def FoundAt (edges : List β) (value : β) (i : ℕ) : Prop :=
  i + 1 < edges.length ∧ ∃ last, edges.getLast? = some last ∧
    ((value == last) = true ∧ i + 2 = edges.length ∨
      (value == last) = false ∧ partitionPoint (fun e => decide (e ≤ value)) edges = i + 1)

/-- The first edge is not above the value, the last one is unless it is the value. So the search does
not end in front of the edges nor behind them. -/
theorem foundAt_of_locate? (hantisymm : ∀ a b : β, a ≤ b → b ≤ a → (a == b) = true)
    (h : locate? edges value = some i) : FoundAt edges value i := by
  obtain ⟨lo, hi, hlo, hhi, hlength, hle, hge, rfl⟩ := locate?_eq_some h
  split
  · next heq => exact ⟨by omega, hi, hhi, .inl ⟨heq, by omega⟩⟩
  · next hne =>
    obtain ⟨i, x, y, hplace, -, hy, -⟩ :=
      exists_partitionPoint_between (p := fun e => decide (e ≤ value)) hlo hhi (decide_eq_true hle)
        (decide_eq_false fun hend => hne (hantisymm _ _ hge hend))
    rw [hplace, Nat.add_sub_cancel]
    exact ⟨(List.getElem?_eq_some_iff.1 hy).1, hi, hhi, .inr ⟨Bool.eq_false_iff.2 hne, hplace⟩⟩

end

/-! ### Bins -/

section

variable {α : Type} [Field α] [LinearOrder α] [FloorRing α]

/-- Whether a bin holds a value: from its lower edge on, below its upper edge, and the last bin on its
upper edge too. -/
def holds (edges : List α) (i : Nat) (value : α) : Bool :=
  match edges[i]?, edges[i + 1]? with
  | some lo, some hi =>
    decide (lo ≤ value) && (decide (value < hi) || decide (value = hi ∧ i + 2 = edges.length))
  | _, _ => false

/-- The first bin that holds a value. -/
def binOf? (edges : List α) (value : α) : Option Nat :=
  (List.range (edges.length - 1)).find? fun i => holds edges i value

theorem holds_iff {edges : List α} {i : Nat} {value : α} : holds edges i value = true ↔
    ∃ lo hi, edges[i]? = some lo ∧ edges[i + 1]? = some hi ∧ lo ≤ value ∧
      (value < hi ∨ value = hi ∧ i + 2 = edges.length) := by
  unfold holds
  split
  · next lo hi hlo hhi => simp [hlo, hhi]
  · next hnone =>
    simp only [Bool.false_eq_true, false_iff]
    rintro ⟨lo, hi, hlo, hhi, -⟩
    exact hnone lo hi hlo hhi

/-- Every value between the ends of the edges has a bin. -/
theorem exists_locate?_eq_some {edges : List α} {value lo hi : α} (hlength : 2 ≤ edges.length)
    (hlo : edges.head? = some lo) (hhi : edges.getLast? = some hi) (h : lo ≤ value ∧ value ≤ hi) :
    ∃ i, locate? edges value = some i := by
  match edges, hlength with
  | low :: second :: rest, _ =>
    cases hlo
    unfold locate?
    simp only [hhi, Option.getD_some, if_pos h]
    split <;> exact ⟨_, rfl⟩

/-- Whether a value lies between the first and the last edge. -/
def Edges.Enclose (edges : List α) (value : α) : Prop :=
  ∃ first ∈ edges.head?, ∃ last ∈ edges.getLast?, first ≤ value ∧ value ≤ last

instance (edges : List α) (value : α) : Decidable (Edges.Enclose edges value) :=
  inferInstanceAs (Decidable (∃ first ∈ edges.head?, ∃ last ∈ edges.getLast?, _))

/-- The values that have a bin are those between the ends. -/
theorem exists_locate?_iff {edges : List α} (hlength : 2 ≤ edges.length) {value : α} :
    (∃ i, locate? edges value = some i) ↔ Edges.Enclose edges value := by
  constructor
  · rintro ⟨i, hi⟩
    obtain ⟨first, last, hfirst, hlast, -, hge, hle, -⟩ := locate?_eq_some hi
    exact ⟨first, hfirst, last, hlast, hge, hle⟩
  · rintro ⟨first, hfirst, last, hlast, hin⟩
    exact exists_locate?_eq_some hlength hfirst hlast hin

theorem foundAt {edges : List α} {value : α} {i : Nat} (h : locate? edges value = some i) :
    FoundAt edges value i :=
  foundAt_of_locate? (fun a b hab hba => by simpa using le_antisymm hab hba) h

/-- A value is only put into a bin that there is. -/
theorem locate?_lt {edges : List α} {value : α} {i : Nat} (h : locate? edges value = some i) :
    i + 1 < edges.length :=
  (foundAt h).1

/-! ### Ascending edges -/

/-- Numbers ascend if no two neighbours are out of order. -/
theorem anyNeighbours_eq_false_iff {r : α → α → Bool} (hr : ∀ a b, r a b = false ↔ a < b)
    {xs : List α} : anyNeighbours r xs = false ↔ xs.Pairwise (· < ·) := by
  rw [← List.isChain_iff_pairwise, anyNeighbours_eq_false]
  simp only [hr]

variable {edges : List α}

theorem getElem_lt_of_pairwise (hsorted : edges.Pairwise (· < ·)) {i j : Nat} {a b : α}
    (hij : i < j) (ha : edges[i]? = some a) (hb : edges[j]? = some b) : a < b := by
  obtain ⟨hi, rfl⟩ := List.getElem?_eq_some_iff.1 ha
  obtain ⟨hj, rfl⟩ := List.getElem?_eq_some_iff.1 hb
  exact List.pairwise_iff_getElem.1 hsorted i j hi hj hij

theorem getElem_le_of_pairwise (hsorted : edges.Pairwise (· < ·)) {i j : Nat} {a b : α}
    (hij : i ≤ j) (ha : edges[i]? = some a) (hb : edges[j]? = some b) : a ≤ b := by
  rcases hij.lt_or_eq with h | rfl
  · exact (getElem_lt_of_pairwise hsorted h ha hb).le
  · rw [ha] at hb
    exact (Option.some.inj hb).le

/-- Only one bin holds a value. -/
theorem holds_unique (hsorted : edges.Pairwise (· < ·)) {value : α} {i j : Nat}
    (hi : holds edges i value = true) (hj : holds edges j value = true) : i = j := by
  have key : ∀ {i j : Nat}, holds edges i value = true → holds edges j value = true → ¬ i < j := by
    intro i j hi hj hij
    obtain ⟨_, upper, -, hupper, -, habove⟩ := holds_iff.1 hi
    obtain ⟨lower, _, hlower, hnext, hbelow, -⟩ := holds_iff.1 hj
    have hjlength : j + 1 < edges.length := (List.getElem?_eq_some_iff.1 hnext).1
    have hle : upper ≤ lower := getElem_le_of_pairwise hsorted hij hupper hlower
    rcases habove with h | ⟨-, h⟩
    · exact absurd (hle.trans hbelow) (not_le.2 h)
    · omega
  rcases Nat.lt_trichotomy i j with h | h | h
  · exact absurd h (key hi hj)
  · exact h
  · exact absurd h (key hj hi)

theorem binOf?_eq_some_iff (hsorted : edges.Pairwise (· < ·)) {value : α} {i : Nat} :
    binOf? edges value = some i ↔ holds edges i value = true := by
  constructor
  · intro h
    exact List.find?_some (p := fun j => holds edges j value) h
  · intro h
    obtain ⟨_, _, -, hnext, -⟩ := holds_iff.1 h
    have hi : i + 1 < edges.length := (List.getElem?_eq_some_iff.1 hnext).1
    cases hfind : binOf? edges value with
    | none =>
      have := List.find?_eq_none.1 hfind i (List.mem_range.2 (by omega))
      exact absurd h this
    | some j =>
      have hj := List.find?_some (p := fun j => holds edges j value) hfind
      rw [holds_unique hsorted hj h]

theorem holds_of_locate? (hsorted : edges.Pairwise (· < ·)) {value : α} {i : Nat}
    (h : locate? edges value = some i) : holds edges i value = true := by
  obtain ⟨lo, hi, hlo, hhi, hlength, hle, hge, rfl⟩ := locate?_eq_some h
  have hlast : edges[edges.length - 1]? = some hi := by rw [← List.getLast?_eq_getElem?, hhi]
  simp only [beq_iff_eq]
  split
  · next hv =>
    refine holds_iff.2 ⟨edges[edges.length - 2], hi, List.getElem?_eq_getElem (by omega), ?_, ?_,
      Or.inr ⟨hv, by omega⟩⟩
    · rwa [show edges.length - 2 + 1 = edges.length - 1 by omega]
    · have := getElem_lt_of_pairwise hsorted (show edges.length - 2 < edges.length - 1 by omega)
        (List.getElem?_eq_getElem (by omega)) hlast
      exact hv ▸ this.le
  · next hv =>
    obtain ⟨i, x, y, hplace, hx, hy, hleft, hright⟩ :=
      exists_partitionPoint_between (p := fun e => decide (e ≤ value)) hlo hhi (decide_eq_true hle)
        (decide_eq_false fun hend => hv (le_antisymm hge hend))
    rw [hplace, Nat.add_sub_cancel]
    exact holds_iff.2 ⟨x, y, hx, hy, of_decide_eq_true hleft,
      .inl (not_le.1 (of_decide_eq_false hright))⟩

/-- A value in a bin lies between the ends of the edges. -/
theorem within_of_holds (hsorted : edges.Pairwise (· < ·)) {value : α} {i : Nat}
    (h : holds edges i value = true) : ∃ a b, edges.head? = some a ∧ edges.getLast? = some b ∧
      2 ≤ edges.length ∧ a ≤ value ∧ value ≤ b := by
  obtain ⟨lo, hi, hlo, hhi, hle, hge⟩ := holds_iff.1 h
  have hlength : i + 1 < edges.length := (List.getElem?_eq_some_iff.1 hhi).1
  have hhead : edges[0]? = some edges[0] := List.getElem?_eq_getElem (by omega)
  have hlast : edges[edges.length - 1]? = some edges[edges.length - 1] :=
    List.getElem?_eq_getElem (by omega)
  have hvalue : value ≤ hi := by
    rcases hge with h | ⟨h, -⟩
    · exact h.le
    · exact h.le
  refine ⟨_, _, List.head?_eq_getElem? ▸ hhead, List.getLast?_eq_getElem? ▸ hlast, by omega, ?_, ?_⟩
  · exact (getElem_le_of_pairwise hsorted (Nat.zero_le i) hhead hlo).trans hle
  · exact hvalue.trans (getElem_le_of_pairwise hsorted (by omega) hhi hlast)

/-- Between ascending edges a value is put into the bin that holds it. -/
theorem locate?_eq_binOf? (hsorted : edges.Pairwise (· < ·)) (value : α) :
    locate? edges value = binOf? edges value := by
  cases hloc : locate? edges value with
  | some i => exact ((binOf?_eq_some_iff hsorted).2 (holds_of_locate? hsorted hloc)).symm
  | none =>
    cases hbin : binOf? edges value with
    | none => rfl
    | some i =>
      obtain ⟨a, b, ha, hb, hlength, hin⟩ :=
        within_of_holds hsorted ((binOf?_eq_some_iff hsorted).1 hbin)
      obtain ⟨j, hj⟩ := exists_locate?_eq_some hlength ha hb hin
      rw [hj] at hloc
      cases hloc

theorem binOf?_eq_none_of_lt (hsorted : edges.Pairwise (· < ·)) {a value : α}
    (ha : edges.head? = some a) (h : value < a) : binOf? edges value = none := by
  refine Option.eq_none_iff_forall_ne_some.2 fun i hi => ?_
  obtain ⟨a', _, ha', -, -, hle, -⟩ := within_of_holds hsorted ((binOf?_eq_some_iff hsorted).1 hi)
  rw [ha] at ha'
  cases ha'
  exact absurd h (not_lt.2 hle)

/-! ### The bin of a value -/

/-- The value on the last edge lies in the last bin, any other one in the bin whose edges it lies
between. -/
theorem locate?_eq_some_iff (hlength : 2 ≤ edges.length) (hsorted : edges.Pairwise (· < ·)) {value : α}
    {i : ℕ} : locate? edges value = some i ↔
      (∃ lo hi, edges[i]? = some lo ∧ edges[i + 1]? = some hi ∧ lo ≤ value ∧ value < hi) ∨
        edges.getLast? = some value ∧ i + 2 = edges.length := by
  rw [locate?_eq_binOf? hsorted, binOf?_eq_some_iff hsorted, holds_iff]
  constructor
  · rintro ⟨lo, hi, hlo, hhi, hle, hlt | ⟨rfl, hi⟩⟩
    · exact .inl ⟨lo, hi, hlo, hhi, hle, hlt⟩
    · refine .inr ⟨?_, hi⟩
      rwa [List.getLast?_eq_getElem?, show edges.length - 1 = i + 1 by omega]
  · rintro (⟨lo, hi, hlo, hhi, hle, hlt⟩ | ⟨hlast, hi⟩)
    · exact ⟨lo, hi, hlo, hhi, hle, .inl hlt⟩
    · rw [List.getLast?_eq_getElem?, show edges.length - 1 = i + 1 by omega] at hlast
      have hlo : edges[i]? = some edges[i] := List.getElem?_eq_getElem (by omega)
      exact ⟨_, value, hlo, hlast, (getElem_lt_of_pairwise hsorted (Nat.lt_succ_self i) hlo hlast).le,
        .inr ⟨rfl, hi⟩⟩

/-- A value that does not lie between the ends of the edges has no bin, and the ends are reported. -/
theorem locate_eq_error {site : ℕ} {axis : Axis} (hlength : 2 ≤ edges.length) {value : α}
    (h : ¬ Edges.Enclose edges value) : ∃ first last, edges.head? = some first ∧
      edges.getLast? = some last ∧
      locate site axis edges value = .error (.outOfRange site axis value first last) := by
  have hne : edges ≠ [] := by
    rintro rfl
    simp at hlength
  have hnone : locate? edges value = none :=
    Option.eq_none_iff_forall_ne_some.2 fun i hi => h ((exists_locate?_iff hlength).1 ⟨i, hi⟩)
  refine ⟨_, _, List.head?_eq_some_head hne, List.getLast?_eq_some_getLast hne, ?_⟩
  rw [locate, hnone, List.head?_eq_some_head hne, List.getLast?_eq_some_getLast hne]
  rfl

/-- The bin of a value. Between ascending edges there is one exactly if the value lies between their ends,
and it is the one with the value on its lower edge or between its edges, or the last one for the value
on the last edge. Whatever the edges are, a bin that is found is one that there is, and the search ends
right of it; this is also so if some of the edges or the value are no numbers. -/
theorem locate_spec (site : ℕ) (axis : Axis) (edges : List α) (value : α) :
    (2 ≤ edges.length → edges.Pairwise (· < ·) →
      ((∃ i, locate site axis edges value = .ok i) ↔ Edges.Enclose edges value) ∧
      (∀ i, locate site axis edges value = .ok i ↔
        (∃ lo hi, edges[i]? = some lo ∧ edges[i + 1]? = some hi ∧ lo ≤ value ∧ value < hi) ∨
          edges.getLast? = some value ∧ i + 2 = edges.length) ∧
      (¬ Edges.Enclose edges value → ∃ first last, edges.head? = some first ∧
        edges.getLast? = some last ∧
        locate site axis edges value = .error (.outOfRange site axis value first last))) ∧
    (∀ i, locate site axis edges value = .ok i → FoundAt edges value i) ∧
    ∀ (edges : List (WithNaN α)) (value : WithNaN α) (i : ℕ),
      locate site axis edges value = .ok i → FoundAt edges value i := by
  simp only [locate_eq_ok]
  refine ⟨fun hlength hsorted => ⟨exists_locate?_iff hlength, fun i =>
    locate?_eq_some_iff hlength hsorted, locate_eq_error hlength⟩, fun i => foundAt,
    fun edges value i => foundAt_of_locate? fun a b hab hba => ?_⟩
  obtain ⟨x, y, rfl, rfl, hxy⟩ := WithNaN.le_iff.1 hab
  simpa using le_antisymm hxy hba

end

/-- An inner edge, the last edge and a value beyond it, and edges out of order. -/
theorem locate_spec_sample :
    let edges : List ℚ := [0, 1, 2]
    2 ≤ edges.length ∧ edges.Pairwise (· < ·) ∧
      locate 0 .magnitude edges 1 = .ok 1 ∧ locate 0 .magnitude edges 2 = .ok 1 ∧
      locate 0 .magnitude edges 3 = .error (.outOfRange 0 .magnitude 3 0 2) ∧
      locate 0 .magnitude [0, 5, 1, (2 : ℚ)] 1 = .ok 2 ∧ FoundAt [0, 5, 1, (2 : ℚ)] 1 2 := by
  intro edges
  have hlength : 2 ≤ edges.length := by decide
  have hsorted : edges.Pairwise (· < ·) := by decide +kernel
  obtain ⟨-, hin, -⟩ := (locate_spec 0 .magnitude edges 1).1 hlength hsorted
  obtain ⟨-, hlast, -⟩ := (locate_spec 0 .magnitude edges 2).1 hlength hsorted
  obtain ⟨-, -, hout⟩ := (locate_spec 0 .magnitude edges 3).1 hlength hsorted
  obtain ⟨-, hany, -⟩ := locate_spec 0 .magnitude [0, 5, 1, (2 : ℚ)] 1
  have hfound : locate 0 .magnitude [0, 5, 1, (2 : ℚ)] 1 = .ok 2 := locate_eq_ok.2 (by decide +kernel)
  refine ⟨hlength, hsorted, (hin 1).2 (.inl ⟨1, 2, rfl, rfl, le_rfl, by norm_num⟩),
    (hlast 1).2 (.inr ⟨rfl, rfl⟩), ?_, hfound, hany 2 hfound⟩
  obtain ⟨_, _, hfirst, hend, herror⟩ := hout (by decide +kernel)
  cases hfirst
  cases hend
  exact herror

end SeismicHazard
