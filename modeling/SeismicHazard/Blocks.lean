import SeismicHazard.Number.Scalar

/-!
# Blocks of similar weight

`blocks` cuts a list into consecutive blocks, about as many as asked for. Items are taken in order, and
a block ends before the item that would make it too heavy.
-/

namespace SeismicHazard

/-- Consecutive blocks of `size` items, the last one with what is left, in at most `fuel` blocks. -/
def evenBlocks {β : Type} (size : Nat) : Nat → List β → List (List β)
  | 0, _ => []
  | _, [] => []
  | fuel + 1, xs => xs.take size :: evenBlocks size fuel (xs.drop size)

def ceilDiv (a b : Nat) : Nat := (a + b - 1) / b

section

variable {α β : Type} [Scalar α]

/-- The weight that counts for an item: a negative one counts as zero. -/
def effectiveWeight (weight : β → α) (x : β) : α := Scalar.max (weight x) 0

/-- Blocks of the items with their weights, where `open_` holds the items of the block that is not
closed yet and `w` is its weight. -/
def fillBlocks (limit : α) : List β → α → List (β × α) → List (List β)
  | [], _, [] => []
  | x :: open_, _, [] => [x :: open_]
  | [], w, (x, wx) :: rest => fillBlocks limit [x] (w + wx) rest
  | y :: open_, w, (x, wx) :: rest =>
    if limit < w + wx then (y :: open_) :: fillBlocks limit [x] (0 + wx) rest
    else fillBlocks limit (y :: open_ ++ [x]) (w + wx) rest

def totalWeight (weights : List α) : α := weights.foldl (· + ·) 0

/-- Consecutive blocks of the items, about `hint` of them. No block of two items or more weighs more
than the even share, rounded up; items without any weight are shared evenly by number. -/
def blocks (items : List β) (hint : Nat) (weight : β → α) : List (List β) :=
  let hint := Max.max hint 1
  let weights := items.map (effectiveWeight weight)
  let total := totalWeight weights
  if total ≤ 0 then evenBlocks (ceilDiv items.length hint) items.length items
  else
    let limit : α := (Scalar.ceil (total / Scalar.ofNat hint) : Int)
    fillBlocks limit [] 0 (items.zip weights)

end

end SeismicHazard
