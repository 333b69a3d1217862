/-!
# Numbers a computation runs on

Every computation of the library is written for an arbitrary type of numbers with the operations
collected here, and for nothing more: machine doubles run it, and the same definitions can be read
over exact rationals, over numbers with a NaN, or over arithmetic that rounds.

* `Scalar`: ring operations, comparisons and the integers around a number.
* `Scalar.min`, `Scalar.max`: the smaller and the larger of two numbers; an operand that is not a
  number is passed over.
* `Scalar.round`: the nearest integer, halves away from zero.
* `Elementary`: exponential, logarithm, power of ten, square root, normal distribution function and
  great-circle distance, as plain operations without laws.
* `TotalOrder`: the order in which numbers appear in keys.
-/

namespace SeismicHazard

/-- A type of numbers: arithmetic, comparisons, and the integers next to a number. Comparisons may
all fail for a value that is not a number. -/
class Scalar (α : Type) extends Zero α, One α, IntCast α, Add α, Sub α, Mul α, Div α, Neg α,
    LT α, LE α, BEq α where
  decidableLT : DecidableLT α
  decidableLE : DecidableLE α
  /-- The largest integer not above the number; `0` for a value that is not a number. -/
  floor : α → Int
  /-- The smallest integer not below the number; `0` for a value that is not a number. -/
  ceil : α → Int

namespace Scalar

instance {α : Type} [Scalar α] : DecidableLT α := decidableLT

instance {α : Type} [Scalar α] : DecidableLE α := decidableLE

section

variable {α : Type} [Scalar α]

def ofNat (n : Nat) : α := ((n : Int) : α)

def ratio (num den : Int) : α := (num : α) / (den : α)

/-- Whether the value equals itself, which a value that is not a number does not. -/
def isNumber (x : α) : Bool := x == x

/-- Whether the value is a number and no infinity: then its difference with itself is a number. -/
def isFinite (x : α) : Bool := isNumber (x - x)

/-- Whether the value is finite and greater than zero. -/
def isPositive (x : α) : Bool := isFinite x && decide (0 < x)

/-- The smaller operand; one that is not a number is passed over. -/
def min (a b : α) : α :=
  if a ≤ b then a else if b < a then b else if isNumber a then a else b

/-- The larger operand; one that is not a number is passed over. -/
def max (a b : α) : α :=
  if b ≤ a then a else if a < b then b else if isNumber a then a else b

/-- The nearest integer to a number that is not negative, a half going up. -/
def roundHalfUp (x : α) : Int :=
  let n := floor x
  if x - (n : α) < ratio 1 2 then n else n + 1

/-- The nearest integer, a half going away from zero. -/
def round (x : α) : Int :=
  if x < 0 then -roundHalfUp (-x) else roundHalfUp x

end

end Scalar

/-- The functions beyond arithmetic that a hazard computation uses, as plain operations. -/
class Elementary (α : Type) where
  exp : α → α
  ln : α → α
  powTen : α → α
  sqrt : α → α
  normalCdf : α → α
  /-- The distance in km along the Earth's surface between two places, each given by longitude and
  latitude in degrees. -/
  distance : α → α → α → α → α

/-- The order by which numbers in keys are told apart and sorted. -/
class TotalOrder (α : Type) where
  cmp : α → α → Ordering

end SeismicHazard
