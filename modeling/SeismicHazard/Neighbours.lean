/-!
# Neighbours in a list

* `anyNeighbours`: whether two neighbours are related.
* `neighbours`: all pairs of neighbours, in order.
-/

namespace SeismicHazard

/-- Whether `r` holds between any two neighbours of a list. -/
def anyNeighbours {β : Type} (r : β → β → Bool) : List β → Bool
  | a :: b :: rest => r a b || anyNeighbours r (b :: rest)
  | _ => false

def neighbours {β : Type} (xs : List β) : List (β × β) := xs.zip xs.tail

theorem length_neighbours {β : Type} (xs : List β) : (neighbours xs).length = xs.length - 1 := by
  simp [neighbours]

end SeismicHazard
