/-!
# Decimal numbers and their layouts

A number is written in two steps: its digits are chosen, which makes a `Numeral`, and the digits are
laid out as text, which a `Layout` decides. A layout says for which magnitudes the point stands in
its place and how an exponent is spelt otherwise.

* `Decimal`: a signed natural number times a power of ten.
* `Numeral`: a decimal, an infinity or no number at all.
* `Layout.write`: the text of a numeral.
* `Layout.text`: the text of a number of any type whose digits can be chosen.
-/

namespace SeismicHazard

/-- The value `digits · 10 ^ exponent`, negated if `negative`. -/
structure Decimal where
  negative : Bool
  digits : Nat
  exponent : Int
deriving DecidableEq

/-- What a number reads as in decimal. -/
inductive Numeral where
  | nan
  | infinite (negative : Bool)
  | finite (d : Decimal)
deriving DecidableEq

/-- Which of two equally near decimals is chosen. -/
inductive Tie where
  | even
  | up
deriving DecidableEq

class DecimalText (α : Type) where
  /-- The decimal with the fewest digits that reads back as the number, the nearest one of these;
  between two equally near ones the tie rule chooses. -/
  numeral : Tie → α → Numeral
  read : Numeral → α

namespace Decimal

def digitChars (d : Decimal) : List Char := Nat.toDigits 10 d.digits

def leading (d : Decimal) : Int := d.exponent + (d.digitChars.length : Int) - 1

/-- The digits with the point in its place: the whole part and the fraction, which is empty for a
whole number. -/
def split (d : Decimal) : List Char × List Char :=
  let cs := d.digitChars
  if 0 ≤ d.exponent then (cs ++ List.replicate d.exponent.toNat '0', [])
  else
    let places := (-d.exponent).toNat
    if places < cs.length then (cs.take (cs.length - places), cs.drop (cs.length - places))
    else (['0'], List.replicate (places - cs.length) '0' ++ cs)

end Decimal

/-- How digits are laid out. -/
structure Layout where
  /-- The powers of ten, the first included and the last not, of the leading digits for which the
  point stands in its place; all of them if nothing is given. -/
  positional : Option (Int × Int)
  /-- Whether a whole number written with the point in its place ends in `.0`. -/
  pointZero : Bool
  /-- Whether an exponent that is not negative has a plus sign. -/
  plusSign : Bool
  /-- The least number of digits of an exponent. -/
  exponentWidth : Nat
  tie : Tie
  nanText : String
  infinityText : String

namespace Layout

/-- Whether the point of the decimal stands in its place. -/
def isPositional (l : Layout) (d : Decimal) : Bool :=
  d.digits == 0 ||
    match l.positional with
    | none => true
    | some (lo, hi) => decide (lo ≤ d.leading) && decide (d.leading < hi)

def exponentChars (l : Layout) (e : Int) : List Char :=
  let cs := Nat.toDigits 10 e.natAbs
  let padded := List.replicate (l.exponentWidth - cs.length) '0' ++ cs
  if e < 0 then '-' :: padded else if l.plusSign then '+' :: padded else padded

def magnitudeChars (l : Layout) (d : Decimal) : List Char :=
  if l.isPositional d then
    match d.split with
    | (whole, []) => if l.pointZero then whole ++ ['.', '0'] else whole
    | (whole, fraction) => whole ++ '.' :: fraction
  else
    match d.digitChars with
    | [] => []
    | [c] => c :: 'e' :: l.exponentChars d.leading
    | c :: rest => c :: '.' :: rest ++ 'e' :: l.exponentChars d.leading

def write (l : Layout) : Numeral → String
  | .nan => l.nanText
  | .infinite negative => if negative then "-" ++ l.infinityText else l.infinityText
  | .finite d =>
    String.ofList (if d.negative then '-' :: l.magnitudeChars d else l.magnitudeChars d)

def text {α : Type} [DecimalText α] (l : Layout) (x : α) : String :=
  l.write (DecimalText.numeral l.tie x)

end Layout

end SeismicHazard
