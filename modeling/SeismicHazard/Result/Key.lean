import SeismicHazard.Number.Double

/-!
# What a result is about

A result belongs to a site, a realization, a threshold, an intensity measure type, a level and the
tectonic region types of the calculation.

* `ResultKey.compare`: the order of results, by these in turn.
* `ResultKey.same`: whether results are about the same.
* `ResultKey.hashInputs`: what a key is hashed by.
-/

namespace SeismicHazard

/-- What a result is about. -/
structure ResultKey (α : Type) where
  site : Nat
  realization : Nat
  poe : Option α
  imt : String
  level : α
  regions : List String

/-- A value that is fed to a hasher. -/
inductive HashInput where
  | number (n : Nat)
  | bits (pattern : UInt64)
  | text (s : String)
deriving DecidableEq

namespace ResultKey

section

variable {α : Type}

/-- An absent value comes before any other. -/
def compareOption (cmp : α → α → Ordering) : Option α → Option α → Ordering
  | none, none => .eq
  | none, some _ => .lt
  | some _, none => .gt
  | some a, some b => cmp a b

/-- The order of results: by site, realization, threshold, intensity measure type, level and
regions. -/
def compare [TotalOrder α] (a b : ResultKey α) : Ordering :=
  (Ord.compare a.site b.site).then <|
  (Ord.compare a.realization b.realization).then <|
  (compareOption TotalOrder.cmp a.poe b.poe).then <|
  (Ord.compare a.imt b.imt).then <|
  (TotalOrder.cmp a.level b.level).then <|
  List.compareLex Ord.compare a.regions b.regions

def same [TotalOrder α] (a b : ResultKey α) : Bool := compare a b == .eq

def place (k : ResultKey α) : String := "site " ++ k.site.repr ++ " rlz " ++ k.realization.repr

variable [BitPattern α]

/-- The number of values that follow, and a value by its bit pattern. -/
def optionInputs : Option α → List HashInput
  | none => [.number 0]
  | some x => [.number 1, .bits (BitPattern.toBits x)]

/-- The values that a key is hashed by, field by field. -/
def hashInputs (k : ResultKey α) : List HashInput :=
  [.number k.site, .number k.realization] ++ optionInputs k.poe ++
    [.text k.imt, .bits (BitPattern.toBits k.level), .number k.regions.length] ++
    k.regions.map .text

end

end ResultKey

end SeismicHazard
