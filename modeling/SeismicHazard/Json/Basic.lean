import SeismicHazard.Number.Decimal
import SeismicHazard.Number.Scalar

/-!
# JSON values

* `Json`: a value, with its numbers as they are written.
* `Json.render`: the text of a value, without blanks.
* `Json.real`: a number as a value; one that is not finite has no JSON text and becomes `null`.
-/

namespace SeismicHazard

inductive Json where
  | null
  | bool (b : Bool)
  /-- A number, as it is written. -/
  | number (literal : String)
  /-- A text. It is absent if the value was written with half of a surrogate pair. -/
  | text (s : Option String)
  | list (items : List Json)
  /-- Named fields, in order; a name is absent in the same case as a text. -/
  | record (fields : List (Option String × Json))

namespace Json

def hexByte (n : Nat) : List Char :=
  [Nat.digitChar (n / 16 % 16), Nat.digitChar (n % 16)]

/-- A character as it stands inside quotes. -/
def escape (c : Char) : List Char :=
  match c with
  | '"' => ['\\', '"']
  | '\\' => ['\\', '\\']
  | '\n' => ['\\', 'n']
  | '\r' => ['\\', 'r']
  | '\t' => ['\\', 't']
  | c =>
    if c.toNat = 8 then ['\\', 'b']
    else if c.toNat = 12 then ['\\', 'f']
    else if c.toNat < 32 then ['\\', 'u', '0', '0'] ++ hexByte c.toNat
    else [c]

def quote (s : String) : String := String.ofList ('"' :: s.toList.flatMap escape ++ ['"'])

mutual

def render : Json → String
  | null => "null"
  | bool b => if b then "true" else "false"
  | number literal => literal
  | text s => quote (s.getD "")
  | list items => "[" ++ ",".intercalate (renderAll items) ++ "]"
  | record fields => "\x7b" ++ ",".intercalate (renderFields fields) ++ "\x7d"

def renderAll : List Json → List String
  | [] => []
  | x :: rest => x.render :: renderAll rest

def renderFields : List (Option String × Json) → List String
  | [] => []
  | (name, x) :: rest => (quote (name.getD "") ++ ":" ++ x.render) :: renderFields rest

end

def str (s : String) : Json := text (some s)

def obj (fields : List (String × Json)) : Json := record (fields.map fun p => (some p.1, p.2))

def nat (n : Nat) : Json := number n.repr

def int (n : Int) : Json := number n.repr

/-- The layout of numbers with a fraction. -/
def layout : Layout where
  positional := some (-5, 16)
  pointZero := true
  plusSign := true
  exponentWidth := 1
  tie := .even
  nanText := "null"
  infinityText := "null"

/-- A number; one that is not finite becomes `null`. -/
def real {α : Type} [Scalar α] [DecimalText α] (x : α) : Json :=
  if Scalar.isFinite x then number (layout.text x) else null

def reals {α : Type} [Scalar α] [DecimalText α] (xs : List α) : Json := list (xs.map real)

def opt {β : Type} (f : β → Json) : Option β → Json
  | none => null
  | some x => f x

end Json

end SeismicHazard
