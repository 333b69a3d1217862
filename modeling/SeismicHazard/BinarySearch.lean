/-!
# Binary search for the end of a run

`partitionPoint p xs` is the number of leading entries that satisfy `p`, if every entry that does so
comes before every one that does not. On other lists it still ends next to a change: at a place
whose left neighbour satisfies `p` and whose own entry does not, unless it is one of the ends.
-/

namespace SeismicHazard

/-- Whether the entry at a place exists and satisfies the test. -/
def holdsAt {β : Type} (p : β → Bool) (xs : List β) (i : Nat) : Bool := xs[i]?.any p

/-- Halves the range of `size` places from `base` on until one place is left, in at most `steps`
steps. -/
def partitionPointFrom {β : Type} (p : β → Bool) (xs : List β) : Nat → Nat → Nat → Nat
  | 0, base, _ => base
  | steps + 1, base, size =>
    if size ≤ 1 then base
    else
      let half := size / 2
      let mid := base + half
      partitionPointFrom p xs steps (if holdsAt p xs mid then mid else base) (size - half)

/-- The place where a list stops satisfying a test. -/
def partitionPoint {β : Type} (p : β → Bool) (xs : List β) : Nat :=
  let last := partitionPointFrom p xs xs.length 0 xs.length
  if holdsAt p xs last then last + 1 else last

end SeismicHazard
