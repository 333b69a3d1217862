import SeismicHazard.Number.Scalar

/-!
# Edges of bins

* `snappedEdges`: edges at whole multiples of a width around a range.
* `epsilonEdges`: edges that cut a symmetric range evenly.
-/

namespace SeismicHazard

/-- The integer nearest to `n` among those of 64 bits. -/
def clampWord (n : Int) : Int := Max.max Int64.minValue.toInt (Min.min n Int64.maxValue.toInt)

/-- The integer of 64 bits that is `n` up to multiples of `2 ^ 64`. -/
def wrapWord (n : Int) : Int := n.bmod UInt64.size

section

variable {α : Type} [Scalar α]

def multiple (width : α) (i : Int) : α := (i : α) * width

def multiples (width : α) (first last : Int) : List α :=
  (List.range (last + 1 - first).toNat).map fun (i : Nat) => multiple width (first + i)

/-- The first and the last index of the multiples of `width` around the range from `lo` to `hi`. They
differ; where rounding has moved a multiple into the range, the next one is taken. Indices are words of
64 bits: a quotient is replaced by the nearest word, and a step beyond the words ends at their other
end. -/
def snappedIndices (lo hi width : α) : Int × Int :=
  let first := clampWord (Scalar.floor (lo / width))
  let last := clampWord (Scalar.ceil (hi / width))
  let last := if last ≤ first then wrapWord (first + 1) else last
  (if lo < multiple width first then wrapWord (first - 1) else first,
   if multiple width last < hi then wrapWord (last + 1) else last)

/-- The multiples of `width` around the range from `lo` to `hi`. -/
def snappedEdges (lo hi width : α) : List α :=
  let (first, last) := snappedIndices lo hi width
  multiples width first last

/-- The edges of `bins` equal bins, at least one, between `-truncation` and `truncation`. -/
def epsilonEdges (truncation : α) (bins : Nat) : List α :=
  let n := Max.max bins 1
  ((List.range n).map fun i =>
    -truncation + Scalar.ofNat 2 * truncation * Scalar.ofNat i / Scalar.ofNat n) ++ [truncation]

end

end SeismicHazard
