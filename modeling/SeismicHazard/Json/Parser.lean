import SeismicHazard.Json.Basic
import SeismicHazard.Json.Token

/-!
# Reading JSON

`Json.parse?` reads a text that is one JSON value; nothing but blanks may follow it. `Json.isWithin`
and `Json.leaves` look through a value: how deep it is and what stands in it.
-/

namespace SeismicHazard

namespace Json

mutual

/-- The value in front of the tokens and what follows it, found in at most `fuel` nested steps. -/
def parseValue : Nat → List JsonToken → Option (Json × List JsonToken)
  | _, .null :: rest => some (null, rest)
  | _, .bool b :: rest => some (bool b, rest)
  | _, .number literal :: rest => some (number literal, rest)
  | _, .text s :: rest => some (text s, rest)
  | _, .openList :: .closeList :: rest => some (list [], rest)
  | _, .openRecord :: .closeRecord :: rest => some (record [], rest)
  | fuel + 1, .openList :: rest => do
    let (items, rest) ← parseItems fuel rest
    return (list items, rest)
  | fuel + 1, .openRecord :: rest => do
    let (fields, rest) ← parseFields fuel rest
    return (record fields, rest)
  | _, _ => none

def parseItems : Nat → List JsonToken → Option (List Json × List JsonToken)
  | 0, _ => none
  | fuel + 1, tokens => do
    let (item, rest) ← parseValue fuel tokens
    match rest with
    | .comma :: rest =>
      let (items, rest) ← parseItems fuel rest
      return (item :: items, rest)
    | .closeList :: rest => return ([item], rest)
    | _ => none

def parseFields : Nat → List JsonToken → Option (List (Option String × Json) × List JsonToken)
  | 0, _ => none
  | fuel + 1, tokens =>
    match tokens with
    | .text name :: .colon :: rest => do
      let (value, rest) ← parseValue fuel rest
      match rest with
      | .comma :: rest =>
        let (fields, rest) ← parseFields fuel rest
        return ((name, value) :: fields, rest)
      | .closeRecord :: rest => return ([(name, value)], rest)
      | _ => none
    | _ => none

end

def parse? (s : String) : Option Json := do
  let tokens ← JsonToken.scan s.toList
  match ← parseValue tokens.length tokens with
  | (value, []) => return value
  | _ => none

mutual

/-- Whether lists and records are nested at most `depth` deep. -/
def isWithin : Nat → Json → Bool
  | depth, list items => 0 < depth && areWithin (depth - 1) items
  | depth, record fields => 0 < depth && fieldsWithin (depth - 1) fields
  | _, _ => true

def areWithin : Nat → List Json → Bool
  | _, [] => true
  | depth, x :: rest => isWithin depth x && areWithin depth rest

def fieldsWithin : Nat → List (Option String × Json) → Bool
  | _, [] => true
  | depth, (_, x) :: rest => isWithin depth x && fieldsWithin depth rest

end

mutual

/-- The texts, the names and the other single values in a value, wherever they stand. -/
def leaves : Json → List Json
  | list items => leavesOfItems items
  | record fields => leavesOfFields fields
  | x => [x]

def leavesOfItems : List Json → List Json
  | [] => []
  | x :: rest => leaves x ++ leavesOfItems rest

def leavesOfFields : List (Option String × Json) → List Json
  | [] => []
  | (name, x) :: rest => text name :: leaves x ++ leavesOfFields rest

end

end Json

end SeismicHazard
