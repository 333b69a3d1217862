import SeismicHazard.Number.Literal
import SeismicHazard.Number.Scalar

/-!
# Numbers in JSON

A number has a whole part without a needless leading zero, and may have a fraction and an
exponent. It stands for an integer if it has neither and fits 64 bits, and otherwise for a number
with a fraction. Such a number is formed from at most as many leading digits as fit 64 bits, scaled
by a power of ten in one step: it may differ from the nearest number in its last place.

* `Literal.parse?`: a literal from its characters.
* `Literal.toInt?`: the integer that a literal stands for.
* `Literal.toReal?`: the number that a literal stands for, unless it is too large.
-/

namespace SeismicHazard

namespace Literal

/-- The fraction in front, if the next character is a point. -/
def fraction? : List Char → Option (Option (List Nat) × List Char)
  | '.' :: rest =>
    match digits rest with
    | ([], _) => none
    | (ds, rest) => some (some ds, rest)
  | rest => some (none, rest)

/-- The exponent that is all that is left, if anything is. -/
def exponent? : List Char → Option (Option (Bool × List Nat))
  | [] => some none
  | c :: rest =>
    if c = 'e' ∨ c = 'E' then
      match sign rest with
      | (negative, rest) =>
        match digits rest with
        | ([], _) => none
        | (ds, []) => some (some (negative, ds))
        | (_, _ :: _) => none
    else none

/-- Whether digits make a whole part: there is one, and a leading zero stands alone. -/
def isWhole : List Nat → Bool
  | [] => false
  | [_] => true
  | d :: _ => d != 0

def parseUnsigned? (negative : Bool) (cs : List Char) : Option Literal := do
  let (whole, rest) := digits cs
  guard (isWhole whole)
  let (fraction, rest) ← fraction? rest
  let exponent ← exponent? rest
  return ⟨negative, whole, fraction, exponent⟩

def parse? : List Char → Option Literal
  | '-' :: rest => parseUnsigned? true rest
  | cs => parseUnsigned? false cs

def maxWord : Nat := UInt64.size - 1

/-- Appends digits to a number as long as it fits 64 bits; also gives the digits left over. -/
def accumulate (n : Nat) : List Nat → Nat × List Nat
  | [] => (n, [])
  | d :: rest => if maxWord < n * 10 + d then (n, d :: rest) else accumulate (n * 10 + d) rest

/-- The integer that a literal stands for. A negative zero is no integer. -/
def toInt? (l : Literal) : Option Int :=
  match l.fraction, l.exponent, accumulate 0 l.whole with
  | none, none, (n, []) =>
    if l.negative then if 0 < n ∧ n ≤ UInt64.size / 2 then some (-(n : Int)) else none else some n
  | _, _, _ => none

/-- The leading digits that fit 64 bits, as a number, and the power of ten that they count. -/
def significand (l : Literal) : Nat × Int :=
  let (n, dropped) := accumulate 0 l.whole
  let fraction := l.fraction.getD []
  let (n, unused) := accumulate n fraction
  (n, (dropped.length : Int) - ((fraction.length - unused.length : Nat) : Int))

section

variable {α : Type} [Scalar α] [DecimalText α]

def tenTo (n : Nat) : α := DecimalText.read (.finite ⟨false, 1, n⟩)

/-- Divides by `10 ^ e`, where at most `308` powers are taken in one step; zero stays zero. -/
def divideBy : Nat → Nat → α → α
  | 0, _, x => x
  | steps + 1, e, x =>
    if e ≤ 308 then x / tenTo e
    else if x == 0 then x
    else divideBy steps (e - 308) (x / tenTo 308)

/-- Multiplies by `10 ^ e`, unless the result is too large. -/
def multiplyBy? (e : Nat) (x : α) : Option α :=
  if e ≤ 308 then
    let y := x * tenTo e
    if Scalar.isFinite y then some y else none
  else if x == 0 then some x
  else none

/-- The number `x · 10 ^ e`, unless it is too large. -/
def scale? (x : α) (e : Int) : Option α :=
  if 0 ≤ e then multiplyBy? e.toNat x else some (divideBy ((-e).toNat / 308 + 1) (-e).toNat x)

/-- The number that a literal stands for, unless it is too large. An exponent beyond 32 bits leaves
zero or is too large. -/
def toReal? (l : Literal) : Option α :=
  let (n, shift) := l.significand
  let e := l.exponentValue
  let magnitude : Option α :=
    if UInt32.size / 2 ≤ e.natAbs then if n ≠ 0 ∧ 0 < e then none else some 0
    else scale? (Scalar.ofNat n) (shift + e)
  if l.negative then magnitude.map (-·) else magnitude

/-- The number that a literal stands for, where an integer stands for the number nearest to it. -/
def toNumber? (l : Literal) : Option α :=
  match l.toInt? with
  | some n => some (n : α)
  | none => l.toReal?

end

end Literal

end SeismicHazard
