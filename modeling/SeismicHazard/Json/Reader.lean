import SeismicHazard.Json.Parser
import Std.Data.TreeMap

/-!
# Reading domain values from JSON

The parts from which readers of domain values are made. A structure is read from a record, in which
unknown names are passed over and no known name may occur twice, or from a list of its fields in
order. Nothing is coerced, but an integer is accepted where a number is expected. What is passed over
need not be readable (`Json.isReadable`).
-/

namespace SeismicHazard

open Std (TreeMap)

namespace Json

def field? (fields : List (Option String × Json)) (name : String) : Option Json :=
  (fields.find? (·.1 == some name)).map (·.2)

def atMostOnce (fields : List (Option String × Json)) (name : String) : Bool :=
  (fields.filter (·.1 == some name)).length ≤ 1

/-- The values for the given names, each of which may be absent. -/
def fields? (names : List String) : Json → Option (List (Option Json))
  | record fields =>
    if fields.all (·.1.isSome) && names.all (atMostOnce fields) then
      some (names.map (field? fields))
    else none
  | list items =>
    if items.length ≤ names.length then
      some (names.mapIdx fun i _ => items[i]?)
    else none
  | _ => none

def text? : Json → Option String
  | text s => s
  | _ => none

def real? {α : Type} [Scalar α] [DecimalText α] : Json → Option α
  | number literal => do (← Literal.parse? literal.toList).toNumber?
  | _ => none

def isReadable (α : Type) [Scalar α] [DecimalText α] : Json → Bool
  | text s => s.isSome
  | number literal => (real? (α := α) (number literal)).isSome
  | _ => true

/-- An integer between zero and `bound`. -/
def nat? (bound : Nat) : Json → Option Nat
  | number literal => do
    let n ← (← Literal.parse? literal.toList).toInt?
    guard (0 ≤ n ∧ n ≤ bound)
    return n.toNat
  | _ => none

def list? {β : Type} (f : Json → Option β) : Json → Option (List β)
  | list items => items.mapM f
  | _ => none

/-- Values that `f` reads, by name; of two values with one name the later one is kept. -/
def map? {β : Type} (f : Json → Option β) : Json → Option (TreeMap String β)
  | record fields => do
    let pairs ← fields.mapM fun (name, x) => do return (← name, ← f x)
    return TreeMap.ofList pairs
  | _ => none

/-- A value that may be absent or `null`. -/
def optional? {β : Type} (f : Json → Option β) : Option Json → Option (Option β)
  | none | some null => some none
  | some x => (f x).map some

def orElse? {β : Type} (default : β) (f : Json → Option β) : Option Json → Option β
  | none => some default
  | some x => f x

def ofMap {β : Type} (f : β → Json) (m : TreeMap String β) : Json :=
  obj (m.toList.map fun p => (p.1, f p.2))

end Json

end SeismicHazard
