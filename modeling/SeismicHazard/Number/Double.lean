import SeismicHazard.Number.Scalar
import SeismicHazard.Number.Shortest
import SeismicHazard.Number.ErrorFunction

/-!
# Doubles

The machine doubles as numbers of the library. What a double is, its integer neighbours, its place
in the total order and its digits are read off its bit pattern, so that they can be computed with
exact integers.

* `Double.parts`: sign, significand and exponent of a bit pattern.
* `Double.orderKey`: the integer whose order is the total order of the bit patterns.
* The instances of `Scalar`, `Elementary`, `TotalOrder`, `DecimalText` and `BitPattern`, and the two
  of the bit patterns themselves.
-/

namespace SeismicHazard

/-- Numbers that are stored as a pattern of 64 bits. -/
class BitPattern (α : Type) where
  toBits : α → UInt64
  ofBits : UInt64 → α

namespace Double

/-- The value of a bit pattern: no number, an infinity, or `significand · 2 ^ exponent` with a
sign. -/
inductive Parts where
  | nan
  | infinite (negative : Bool)
  | finite (negative : Bool) (significand : Nat) (exponent : Int)

def parts (bits : UInt64) : Parts :=
  let negative := bits >>> 63 == 1
  let biased := ((bits >>> 52) &&& 0x7ff).toNat
  let fraction := (bits &&& 0xfffffffffffff).toNat
  if biased == 0x7ff then
    if fraction == 0 then .infinite negative else .nan
  else if biased == 0 then .finite negative fraction (-1074)
  else .finite negative (fraction + 1 <<< 52) ((biased : Int) - 1075)

/-- The integer whose order is the total order of the patterns: among the patterns with the sign
bit, a greater pattern comes earlier. -/
def orderKey (bits : UInt64) : Int :=
  if bits >>> 63 == 1 then Int64.maxValue.toInt - bits.toNat else bits.toNat

/-- The total order of bit patterns: `-NaN < -∞ < … < -0 < 0 < … < ∞ < NaN`. -/
def compareBits (a b : UInt64) : Ordering := compare (orderKey a) (orderKey b)

/-- An integer beyond the magnitude of every finite double. -/
def beyond : Int := (1 <<< 1024 : Nat)

/-- The largest integer not above the value of a pattern. An infinity is taken for an integer beyond
all doubles, and `0` stands for no number. -/
def floorBits (bits : UInt64) : Int :=
  match parts bits with
  | .nan => 0
  | .infinite negative => if negative then -beyond else beyond
  | .finite negative m e =>
    let s : Int := if negative then -(m : Int) else m
    if 0 ≤ e then s * (1 <<< e.toNat : Nat) else s / (1 <<< (-e).toNat : Nat)

/-- The smallest integer not below the value of a pattern, with the same conventions. -/
def ceilBits (bits : UInt64) : Int :=
  match parts bits with
  | .nan => 0
  | .infinite negative => if negative then -beyond else beyond
  | .finite negative m e =>
    let s : Int := if negative then -(m : Int) else m
    if 0 ≤ e then s * (1 <<< e.toNat : Nat) else -(-s / (1 <<< (-e).toNat : Nat))

def numeralBits (tie : Tie) (bits : UInt64) : Numeral :=
  match parts bits with
  | .nan => .nan
  | .infinite negative => .infinite negative
  | .finite negative 0 _ => .finite ⟨negative, 0, 0⟩
  | .finite negative m e =>
    let (digits, exponent) := shortest tie m e (m == 1 <<< 52 && decide (-1074 < e))
    .finite ⟨negative, digits, exponent⟩

/-- The double nearest to `digits · 10 ^ exponent`. Exponents beyond the range of doubles are settled
first, so that no larger power of ten is formed. -/
def ofDecimal (digits : Nat) (exponent : Int) : Float :=
  if digits == 0 then 0.0
  else
    let leading := exponent + (Nat.toDigits 10 digits).length
    if 400 < leading then 1.0 / 0.0
    else if leading < -400 then 0.0
    else if exponent < 0 then Float.ofScientific digits true (-exponent).toNat
    else Float.ofScientific (digits * Nat.pow 10 exponent.toNat) false 0

def ofNumeral : Numeral → Float
  | .nan => 0.0 / 0.0
  | .infinite negative => if negative then -1.0 / 0.0 else 1.0 / 0.0
  | .finite d => if d.negative then -ofDecimal d.digits d.exponent else ofDecimal d.digits d.exponent

def earthRadius : Float := 6371.0

def radians (degrees : Float) : Float := degrees * (3.14159265358979323846264338327950288 / 180.0)

/-- The great-circle distance in km by the haversine formula. An argument that is not a number leaves
the farthest distance there is, half the circumference. -/
def greatCircle (lon₁ lat₁ lon₂ lat₂ : Float) : Float :=
  let φ₁ := radians lat₁
  let φ₂ := radians lat₂
  let dφ := φ₂ - φ₁
  let dl := radians (lon₂ - lon₁)
  let sφ := Float.sin (dφ / 2.0)
  let sl := Float.sin (dl / 2.0)
  let a := sφ * sφ + Float.cos φ₁ * Float.cos φ₂ * (sl * sl)
  let root := Float.sqrt a
  2.0 * earthRadius * Float.asin (if root < 1.0 then root else 1.0)

end Double

instance : Scalar Float where
  zero := 0.0
  one := 1.0
  intCast := Float.ofInt
  lt a b := a < b
  le a b := a ≤ b
  beq a b := a == b
  decidableLT := inferInstance
  decidableLE := inferInstance
  floor x := Double.floorBits x.toBits
  ceil x := Double.ceilBits x.toBits
  add := Float.add
  sub := Float.sub
  mul := Float.mul
  div := Float.div
  neg := Float.neg

instance : Elementary Float where
  exp := Float.exp
  ln := Float.log
  powTen := Float.pow 10.0
  sqrt := Float.sqrt
  normalCdf := normalCdf
  distance := Double.greatCircle

instance : TotalOrder Float where
  cmp a b := Double.compareBits a.toBits b.toBits

instance : DecimalText Float where
  numeral tie x := Double.numeralBits tie x.toBits
  read := Double.ofNumeral

instance : BitPattern Float where
  toBits := Float.toBits
  ofBits := Float.ofBits

instance : BitPattern UInt64 where
  toBits := id
  ofBits := id

/-- Bit patterns, also those that stand for no number, in the order of the doubles. -/
instance : TotalOrder UInt64 where
  cmp := Double.compareBits

end SeismicHazard
