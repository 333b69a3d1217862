import SeismicHazard.Number.Decimal

/-!
# The fewest digits that read back

A binary number `m · 2 ^ q` is the nearest one of its format to every real in an interval around it.
Among the decimals in that interval `shortest` takes one with the fewest digits, and of these the
nearest. The grids of multiples of a power of ten are tried from the coarsest one on; on each of
them only the two neighbours of the number can be the nearest hit.

All arithmetic is exact, on natural numbers.
-/

namespace SeismicHazard

namespace Shortest

/-- A positive binary number with the interval of reals that are nearest to it, in units of a
quarter of its last place: `mid · num / den` is the number, and `lo` and `hi` bound the interval in
the same unit. -/
structure Interval where
  num : Nat
  den : Nat
  mid : Nat
  lo : Nat
  hi : Nat
  /-- Whether the bounds belong to the interval. -/
  closed : Bool

/-- The interval of `m · 2 ^ q`, which is narrower below if `atBinade`, where smaller numbers lie
closer together. -/
def Interval.ofBinary (m : Nat) (q : Int) (atBinade : Bool) : Interval where
  num := 1 <<< (q - 2).toNat
  den := 1 <<< (2 - q).toNat
  mid := 4 * m
  lo := if atBinade then 4 * m - 1 else 4 * m - 2
  hi := 4 * m + 2
  closed := m % 2 == 0

/-- Whether `c · den` lies in the interval scaled by `num`. -/
def Interval.holds (i : Interval) (num den c : Nat) : Bool :=
  if i.closed then i.lo * num ≤ c * den && c * den ≤ i.hi * num
  else i.lo * num < c * den && c * den < i.hi * num

/-- The hit of the interval on the multiples of `10 ^ e`, if there is one: the multiple below or
the one above the number, and of two hits the nearer. -/
def Interval.hit (i : Interval) (tie : Tie) (e : Int) : Option Nat :=
  let num := i.num * Nat.pow 10 (-e).toNat
  let den := i.den * Nat.pow 10 e.toNat
  let c := i.mid * num / den
  match i.holds num den c, i.holds num den (c + 1) with
  | false, false => none
  | true, false => some c
  | false, true => some (c + 1)
  | true, true =>
    let twice := 2 * (i.mid * num - c * den)
    if twice < den then some c
    else if den < twice then some (c + 1)
    else match tie with
      | .up => some (c + 1)
      | .even => if c % 2 == 0 then some c else some (c + 1)

/-- The first hit on the grids of `10 ^ e`, `10 ^ (e - 1)`, …, at most `steps` of them. -/
def Interval.search (i : Interval) (tie : Tie) : Nat → Int → Option (Nat × Int)
  | 0, _ => none
  | steps + 1, e =>
    match i.hit tie e with
    | some c => some (c, e)
    | none => i.search tie steps (e - 1)

/-- A power of ten above which no positive number below `2 ^ b` lies. -/
def exponentAbove (b : Int) : Int := b * 30103 / 100000 + 1

end Shortest

open Shortest in
/-- The decimal digits and the power of ten for `m · 2 ^ q` with `m < 2 ^ 53`: the fewest digits that
read back. Twenty grids reach past the seventeenth digit. -/
def shortest (tie : Tie) (m : Nat) (q : Int) (atBinade : Bool) : Nat × Int :=
  let i := Interval.ofBinary m q atBinade
  let top := exponentAbove (q + (m.log2 : Int) + 1)
  (i.search tie 20 top).getD (0, 0)

end SeismicHazard
