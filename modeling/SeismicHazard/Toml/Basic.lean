import SeismicHazard.Number.Literal

/-!
# TOML values

* `Toml`: a value of a TOML document.
* `Toml.layout`: how numbers with a fraction are written.
-/

namespace SeismicHazard

inductive Toml where
  | text (s : String)
  | integer (n : Int)
  | float (x : Numeral)
  | bool (b : Bool)
  /-- A date, a time or both; nothing is asked of it. -/
  | moment
  | list (items : List Toml)
  | table (fields : List (String × Toml))

namespace Toml

def isBare (c : Char) : Bool := c.isAlphanum || c == '_' || c == '-'

def layout : Layout where
  positional := none
  pointZero := true
  plusSign := false
  exponentWidth := 1
  tie := .up
  nanText := "nan"
  infinityText := "inf"

end Toml

end SeismicHazard
