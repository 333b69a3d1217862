import SeismicHazard.Number.Decimal

/-!
# Decimal literals

The written form of a decimal number: digits before and after a point and an exponent. Formats differ
in which literals they allow; what a literal stands for is the same in all of them.

* `Literal`: the parts of a literal.
* `Literal.digits`, `Literal.sign`: reading the parts off characters.
* `Literal.numeral`: the decimal that a literal stands for.
-/

namespace SeismicHazard

/-- The parts of a number literal, digits as numbers below ten. -/
structure Literal where
  negative : Bool
  whole : List Nat
  fraction : Option (List Nat)
  /-- Whether the exponent is negative, and its digits. -/
  exponent : Option (Bool × List Nat)
deriving DecidableEq

namespace Literal

def digit? (c : Char) : Option Nat := if c.isDigit then some (c.toNat - '0'.toNat) else none

/-- The digits in front and what follows them. -/
def digits : List Char → List Nat × List Char
  | [] => ([], [])
  | c :: rest =>
    match digit? c with
    | some d => (d :: (digits rest).1, (digits rest).2)
    | none => ([], c :: rest)

def sign : List Char → Bool × List Char
  | '-' :: rest => (true, rest)
  | '+' :: rest => (false, rest)
  | rest => (false, rest)

def ofDigits (ds : List Nat) : Nat := ds.foldl (fun n d => n * 10 + d) 0

def signed (negative : Bool) (ds : List Nat) : Int :=
  if negative then -(ofDigits ds : Int) else ofDigits ds

def exponentValue (l : Literal) : Int :=
  match l.exponent with
  | none => 0
  | some (negative, ds) => signed negative ds

def numeral (l : Literal) : Numeral :=
  let fraction := l.fraction.getD []
  .finite ⟨l.negative, ofDigits (l.whole ++ fraction), l.exponentValue - (fraction.length : Int)⟩

end Literal

end SeismicHazard
