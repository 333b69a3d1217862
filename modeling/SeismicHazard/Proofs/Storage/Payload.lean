import SeismicHazard.Proofs.Tensor.Factors
import SeismicHazard.Storage.Payload

/-!
# Arrays and their bytes undo each other

An array is read back from its shape and its payload, and the payload of an array that is read is the one
it was read from. A shape and a payload make an array exactly if there are eight bytes for every cell and
the shape is no larger than arrays can be, even though the cells are counted in words of 64 bits.

* `Tensor.numberOf_numberBytes`, `Tensor.numberBytes_numberOf`: one number and its eight bytes.
* `Tensor.ofPayload_payload`: an array is read back as it was written.
* `Tensor.exists_ofPayload_iff`: when a shape and a payload make an array.
* `Tensor.payload_of_ofPayload`: what is written is what was read.
* `Tensor.ofPayload_inverts_payload`: all of this for bit patterns.
-/

namespace SeismicHazard.Tensor

theorem cellCount_eq_prod (shape : List ℕ) : cellCount shape = shape.prod := by
  induction shape with
  | nil => rfl
  | cons n shape ih => rw [cellCount, ih, List.prod_cons]

theorem volume_eq_prod (shape : List ℕ) : volume shape = (shape.filter (· ≠ 0)).prod := by
  rw [volume, cellCount_eq_prod]
  exact congrArg List.prod (List.filter_congr fun n _ => by rw [decide_not]; rfl)

section

variable {α : Type} [BitPattern α]

/-! ### One number -/

theorem length_numberBytes (x : α) : (numberBytes x).length = 8 := length_lowBytes 8 _

theorem numberOf_numberBytes {x : α} (hx : BitPattern.ofBits (BitPattern.toBits x) = x) :
    numberOf (numberBytes x) = x := by
  have hlt := (BitPattern.toBits x).toNat_lt
  rw [numberOf, numberBytes, ofLowBytes_lowBytes, Nat.one_shiftLeft, Nat.mod_eq_of_lt hlt,
    UInt64.ofNat_toNat, hx]

theorem numberBytes_numberOf (hbits : ∀ b, BitPattern.toBits (BitPattern.ofBits b : α) = b)
    {bytes : List UInt8} (h : bytes.length = 8) : numberBytes (numberOf bytes : α) = bytes := by
  have hlt : ofLowBytes bytes < 2 ^ 64 := by simpa [h, Nat.one_shiftLeft] using ofLowBytes_lt bytes
  rw [numberBytes, numberOf, hbits, UInt64.toNat_ofNat_of_lt' hlt, ← h, lowBytes_ofLowBytes]

/-! ### Arrays -/

theorem length_payload (t : Tensor α) : t.payload.length = 8 * cellCount t.shape := by
  rw [payload, List.length_flatMap, List.map_congr_left fun x _ => length_numberBytes x,
    List.map_const', List.sum_replicate_nat, length_toList, Nat.mul_comm]

/-- When a shape and a payload make an array, and which one: no product wraps around for a shape that
arrays can have. -/
theorem ofPayload_eq_ok {shape : List ℕ} {bytes : List UInt8} {t : Tensor α} :
    ofPayload shape bytes = .ok t ↔
      (bytes.length = 8 * cellCount shape ∧ volume shape ≤ maxVolume) ∧
        t.shape = shape ∧ t.toList = (chunks 8 (cellCount shape) bytes).map numberOf := by
  unfold ofPayload
  constructor
  · intro h
    split at h
    · cases h
    · next hwhole =>
      split at h
      · cases h
      · next hcount =>
        split at h
        · cases h
        · next hvolume =>
          have hcells : bytes.length / 8 = cellCount shape := by
            rw [Decidable.not_not.1 hcount, wrappedCount_eq (Nat.le_of_not_lt hvolume)]
          cases h
          exact ⟨⟨by omega, Nat.le_of_not_lt hvolume⟩, rfl, by rw [← hcells]; rfl⟩
  · rintro ⟨⟨hlength, hvolume⟩, rfl, hlist⟩
    have hcells : bytes.length / 8 = cellCount t.shape := by omega
    have hwrapped : bytes.length / 8 = wrappedCount t.shape := by
      rw [wrappedCount_eq hvolume, hcells]
    rw [if_neg (by omega), dif_neg (not_not_intro hwrapped), dif_neg (Nat.not_lt.2 hvolume)]
    congr 1
    cases t
    simp only [Tensor.mk.injEq, true_and]
    rw [hcells, ← hlist]
    rfl

/-- A shape and a payload make an array if there are eight bytes for every cell and the shape is one
that arrays can have. -/
theorem exists_ofPayload_iff {shape : List ℕ} {bytes : List UInt8} :
    (∃ t : Tensor α, ofPayload shape bytes = .ok t) ↔
      bytes.length = 8 * cellCount shape ∧ volume shape ≤ maxVolume := by
  constructor
  · rintro ⟨t, h⟩
    exact (ofPayload_eq_ok.1 h).1
  · intro h
    refine ⟨⟨shape, ((chunks 8 (cellCount shape) bytes).map numberOf).toArray, ?_⟩,
      ofPayload_eq_ok.2 ⟨h, rfl, rfl⟩⟩
    simp [length_chunks]

/-- An array is read back from its shape and its bytes, if it is no larger than arrays can be. -/
theorem ofPayload_payload (hbits : ∀ x : α, BitPattern.ofBits (BitPattern.toBits x) = x)
    (t : Tensor α) (h : volume t.shape ≤ maxVolume) : ofPayload t.shape t.payload = .ok t := by
  refine ofPayload_eq_ok.2 ⟨⟨t.length_payload, h⟩, rfl, ?_⟩
  have hchunks := chunks_flatMap t.toList fun x _ => length_numberBytes x
  rw [length_toList] at hchunks
  rw [payload, hchunks, List.map_map]
  exact (List.map_id'' (fun x => numberOf_numberBytes (hbits x)) _).symm

/-- The array that is read from a shape and a payload is written as these. -/
theorem payload_of_ofPayload (hbits : ∀ b, BitPattern.toBits (BitPattern.ofBits b : α) = b)
    {shape : List ℕ} {bytes : List UInt8} {t : Tensor α} (h : ofPayload shape bytes = .ok t) :
    t.shape = shape ∧ t.payload = bytes := by
  obtain ⟨⟨hlength, -⟩, hshape, hlist⟩ := ofPayload_eq_ok.1 h
  rw [Nat.mul_comm] at hlength
  refine ⟨hshape, ?_⟩
  have hparts : ∀ part ∈ chunks 8 (cellCount shape) bytes,
      numberBytes (numberOf part : α) = part := fun part hpart =>
    numberBytes_numberOf hbits (length_of_mem_chunks hlength hpart)
  rw [payload, hlist, List.flatMap_map, List.flatMap_def, List.map_congr_left hparts, List.map_id',
    flatten_chunks _ hlength]

/-- What does not make an array is refused as unreadable, for one of three reasons. -/
theorem exists_reason_of_ofPayload {shape : List ℕ} {bytes : List UInt8} {reason : Unreadable}
    (h : (ofPayload shape bytes : Except Unreadable (Tensor α)) = .error reason) :
    ∃ text, (StorageError.unreadable reason).message = "Serialization error: " ++ text := by
  unfold ofPayload at h
  split at h
  · cases h
    exact ⟨_, rfl⟩
  · split at h
    · cases h
      exact ⟨_, rfl⟩
    · split at h
      · cases h
        exact ⟨_, rfl⟩
      · cases h

end

/-- Arrays of bit patterns and their bytes undo each other. An array is read back bit for bit exactly if
its extents above zero multiply to less than `2 ^ 63`, as for every array that there can be. A shape and
any bytes make an array exactly if there are eight bytes for every cell, counted without wrapping around,
and the same holds of the shape; the array is then written as this shape and these bytes. Everything else
is refused as unreadable. -/
theorem ofPayload_inverts_payload :
    (∀ t : Tensor UInt64, ofPayload t.shape t.payload = .ok t ↔
      (t.shape.filter (· ≠ 0)).prod ≤ 2 ^ 63 - 1) ∧
    ∀ (shape : List ℕ) (bytes : List UInt8),
      ((∃ t : Tensor UInt64, ofPayload shape bytes = .ok t) ↔
        bytes.length = 8 * shape.prod ∧ (shape.filter (· ≠ 0)).prod ≤ 2 ^ 63 - 1) ∧
      (∀ t : Tensor UInt64, ofPayload shape bytes = .ok t → t.shape = shape ∧ t.payload = bytes) ∧
      ((¬ ∃ t : Tensor UInt64, ofPayload shape bytes = .ok t) → ∃ reason text,
        (ofPayload shape bytes : Except Unreadable (Tensor UInt64)) = .error reason ∧
          (StorageError.unreadable reason).message = "Serialization error: " ++ text) := by
  have hvolume : ∀ shape : List ℕ,
      (shape.filter (· ≠ 0)).prod ≤ 2 ^ 63 - 1 ↔ volume shape ≤ maxVolume := fun shape => by
    rw [← volume_eq_prod]
    rfl
  simp only [hvolume]
  simp only [← cellCount_eq_prod]
  refine ⟨fun t => ⟨fun h => (exists_ofPayload_iff.1 ⟨t, h⟩).2, ofPayload_payload (fun _ => rfl) t⟩,
    fun shape bytes => ⟨exists_ofPayload_iff, fun t => payload_of_ofPayload fun _ => rfl,
      fun hnone => ?_⟩⟩
  cases h : (ofPayload shape bytes : Except Unreadable (Tensor UInt64)) with
  | ok t => exact absurd ⟨t, h⟩ hnone
  | error reason =>
    obtain ⟨text, htext⟩ := exists_reason_of_ofPayload h
    exact ⟨reason, text, rfl, htext⟩

/-- A product that wraps around to zero does not make an empty payload an array. -/
example : (ofPayload [2 ^ 32, 2 ^ 32] [] : Except Unreadable (Tensor UInt64)) =
    .error .shapeTooLarge := rfl

end SeismicHazard.Tensor
