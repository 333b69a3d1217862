import SeismicHazard.Number.Double
import SeismicHazard.Storage.Error
import SeismicHazard.Tensor

/-!
# Arrays as bytes

A stored array is its shape and a payload: the bit patterns of its values in row-major order, eight
bytes each, the lowest byte first.

* `lowBytes`, `ofLowBytes`: a natural number as a number of bytes, and back. Each undoes the other
  (`ofLowBytes_lowBytes`, `lowBytes_ofLowBytes`).
* `Tensor.payload`: the payload of an array.
* `Tensor.ofPayload`: the array of a shape and a payload. It refuses a payload that does not have as
  many values as the shape has cells.
* `Payload.hex`, `Payload.ofHex?`: bytes as text.
-/

namespace SeismicHazard

/-! ### Numbers as bytes -/

/-- The `count` lowest bytes of a number, the lowest first. -/
def lowBytes : Nat → Nat → List UInt8
  | 0, _ => []
  | count + 1, n => UInt8.ofNat n :: lowBytes count (n / 256)

/-- The number with the given bytes, the lowest first. -/
def ofLowBytes : List UInt8 → Nat
  | [] => 0
  | b :: bytes => b.toNat + 256 * ofLowBytes bytes

theorem length_lowBytes (count n : Nat) : (lowBytes count n).length = count := by
  induction count generalizing n with
  | zero => rfl
  | succ count ih => simp [lowBytes, ih]

theorem one_shiftLeft_byte_succ (count : Nat) :
    1 <<< (8 * (count + 1)) = 256 * 1 <<< (8 * count) := by
  rw [Nat.shiftLeft_eq, Nat.shiftLeft_eq, Nat.mul_succ, Nat.pow_add]
  omega

theorem ofLowBytes_lowBytes (count n : Nat) : ofLowBytes (lowBytes count n) = n % 1 <<< (8 * count) := by
  induction count generalizing n with
  | zero => simp [lowBytes, ofLowBytes, Nat.mod_one]
  | succ count ih =>
    rw [lowBytes, ofLowBytes, ih, one_shiftLeft_byte_succ, Nat.mod_mul, UInt8.toNat_ofNat']

theorem lowBytes_ofLowBytes (bytes : List UInt8) :
    lowBytes bytes.length (ofLowBytes bytes) = bytes := by
  induction bytes with
  | nil => rfl
  | cons b bytes ih =>
    have hb : b.toNat < 256 := b.toNat_lt
    have hdiv : (b.toNat + 256 * ofLowBytes bytes) / 256 = ofLowBytes bytes := by omega
    have hlow : UInt8.ofNat (b.toNat + 256 * ofLowBytes bytes) = b := by
      apply UInt8.toNat_inj.1
      simp only [UInt8.toNat_ofNat']
      omega
    rw [ofLowBytes, List.length_cons, lowBytes, hlow, hdiv, ih]

theorem ofLowBytes_lt (bytes : List UInt8) : ofLowBytes bytes < 1 <<< (8 * bytes.length) := by
  induction bytes with
  | nil => simp [ofLowBytes]
  | cons b bytes ih =>
    have hb : b.toNat < 256 := b.toNat_lt
    rw [ofLowBytes, List.length_cons, one_shiftLeft_byte_succ]
    omega

/-! ### Arrays -/

/-- The greatest size that arrays can have. -/
def maxVolume : Nat := UInt64.size / 2 - 1

/-- The product of the extents that are not zero. -/
def volume (shape : List Nat) : Nat := cellCount (shape.filter (· != 0))

/-- The number of values that a shape seems to need: products wrap around at 64 bits. -/
def wrappedCount (shape : List Nat) : Nat := cellCount shape % UInt64.size

theorem cellCount_le_volume (shape : List Nat) : cellCount shape ≤ volume shape := by
  induction shape with
  | nil => simp [volume]
  | cons n shape ih =>
    by_cases hn : n = 0
    · simp [hn, cellCount]
    · simpa [volume, cellCount, hn] using Nat.mul_le_mul_left n ih

theorem wrappedCount_eq {shape : List Nat} (h : volume shape ≤ maxVolume) :
    wrappedCount shape = cellCount shape := by
  have := cellCount_le_volume shape
  apply Nat.mod_eq_of_lt
  simp only [maxVolume, UInt64.size] at h ⊢
  omega

namespace Tensor

section

variable {α : Type} [BitPattern α]

def numberBytes (x : α) : List UInt8 := lowBytes 8 (BitPattern.toBits x).toNat

def numberOf (bytes : List UInt8) : α := BitPattern.ofBits (UInt64.ofNat (ofLowBytes bytes))

def payload (t : Tensor α) : List UInt8 := t.toList.flatMap numberBytes

def ofPayload (shape : List Nat) (payload : List UInt8) : Except Unreadable (Tensor α) :=
  if payload.length % 8 ≠ 0 then .error (.partialNumber payload.length)
  else if hc : payload.length / 8 ≠ wrappedCount shape then
    .error (.count shape (wrappedCount shape) (payload.length / 8))
  else if hv : maxVolume < volume shape then .error .shapeTooLarge
  else
    .ok
      { shape := shape
        values := ((chunks 8 (payload.length / 8) payload).map numberOf).toArray
        size_values := by
          rw [Decidable.not_not.1 hc, wrappedCount_eq (Nat.le_of_not_lt hv)]
          simp [length_chunks] }

end

end Tensor

/-! ### Bytes as text -/

namespace Payload

/-- The hexadecimal digits of bytes, the high digit of each byte first. -/
def hex (bytes : List UInt8) : String :=
  String.ofList (bytes.flatMap fun b => [Nat.digitChar (b.toNat / 16), Nat.digitChar (b.toNat % 16)])

def hexDigit? (c : Char) : Option Nat :=
  if '0' ≤ c ∧ c ≤ '9' then some (c.toNat - '0'.toNat)
  else if 'a' ≤ c ∧ c ≤ 'f' then some (c.toNat - 'a'.toNat + 10)
  else none

def ofDigits? : List Char → Option (List UInt8)
  | [] => some []
  | high :: low :: rest => do
    return UInt8.ofNat (16 * (← hexDigit? high) + (← hexDigit? low)) :: (← ofDigits? rest)
  | [_] => none

def ofHex? (s : String) : Option (List UInt8) := ofDigits? s.toList

end Payload

end SeismicHazard
