import SeismicHazard.Number.Scalar

/-!
# Closed ranges of numbers

A `Span` runs from its smallest to its largest number. It grows by the numbers it is asked to
include, and a value that is not a number leaves it as it is.
-/

namespace SeismicHazard

/-- A closed range of numbers. -/
structure Span (α : Type) where
  lo : α
  hi : α

namespace Span

section

variable {α : Type} [Scalar α]

def single (x : α) : Span α := ⟨x, x⟩

def add (s : Span α) (x : α) : Span α := ⟨Scalar.min s.lo x, Scalar.max s.hi x⟩

def union (s t : Span α) : Span α := ⟨Scalar.min s.lo t.lo, Scalar.max s.hi t.hi⟩

/-- The range of the values seen so far, one value later, whatever the value is. -/
def extend (s : Option (Span α)) (x : α) : Option (Span α) :=
  match s with
  | none => some (single x)
  | some s => some (s.add x)

/-- The range of the numbers seen so far, one value later; a value that is not a number opens no
range. -/
def extendByNumber (s : Option (Span α)) (x : α) : Option (Span α) :=
  match s with
  | none => if Scalar.isNumber x then some (single x) else none
  | some s => some (s.add x)

/-- The range of the numbers among `xs`, if there is one. -/
def ofNumbers (xs : List α) : Option (Span α) := xs.foldl extendByNumber none

/-- The range around all of `spans`, if there is one. -/
def unionAll : List (Span α) → Option (Span α)
  | [] => none
  | s :: rest => some (rest.foldl union s)

def contains (s : Span α) (x : α) : Bool := decide (s.lo ≤ x) && decide (x ≤ s.hi)

end

end Span

end SeismicHazard
