import SeismicHazard.Toml.Basic

/-!
# Building tables

A TOML document defines its tables piece by piece: by headers, by keys with several parts, and inside
values. A table may be defined only once, and each way of defining it excludes the others.

* `TomlNode`: a table under construction.
* `TomlNode.insertDotted`: a value under a key with several parts.
* `TomlNode.openTable`, `TomlNode.openTables`: the table, or the next of several tables, of a header.
* `TomlNode.toToml`: the finished value.
-/

namespace SeismicHazard

/-- How a table came to be. -/
inductive TomlOrigin where
  /-- By a header of its own. -/
  | header
  /-- As a part of the header of another table. -/
  | implied
  /-- As a part of a key. -/
  | dotted
deriving DecidableEq

/-- A value, a table or several tables under construction. -/
inductive TomlNode where
  | value (v : Toml)
  | table (origin : TomlOrigin) (fields : List (String × TomlNode))
  | tables (items : List (List (String × TomlNode)))

abbrev TomlFields : Type := List (String × TomlNode)

namespace TomlNode

def find? (fields : TomlFields) (name : String) : Option TomlNode :=
  (fields.find? (·.1 == name)).map (·.2)

def replace (fields : TomlFields) (name : String) (node : TomlNode) : TomlFields :=
  fields.map fun f => if f.1 == name then (name, node) else f

def modifyLast? (f : TomlFields → Option TomlFields) : List TomlFields → Option (List TomlFields)
  | [] => none
  | [t] => do return [← f t]
  | t :: rest => do return t :: (← modifyLast? f rest)

/-- A value under a key with several parts. The parts in front name tables, which must not have a
header of their own; the innermost of them must come from a key itself. -/
def insertDotted : List String → String → Toml → TomlFields → Option TomlFields
  | [], name, v, fields =>
    if (find? fields name).isSome then none else some (fields ++ [(name, value v)])
  | part :: path, name, v, fields =>
    match find? fields part with
    | none => do return fields ++ [(part, table .dotted (← insertDotted path name v []))]
    | some (value _) => none
    | some (tables items) =>
      if path = [] then none
      else do return replace fields part (tables (← modifyLast? (insertDotted path name v) items))
    | some (table origin inner) =>
      if origin = .header ∨ (path = [] ∧ origin ≠ .dotted) then none
      else do return replace fields part (table origin (← insertDotted path name v inner))

/-- Changes the table at the end of a path of names. Tables that are missing on the way are added; of
several tables the last one is meant. -/
def modifyAt (f : TomlFields → Option TomlFields) : List String → TomlFields → Option TomlFields
  | [], fields => f fields
  | part :: path, fields =>
    match find? fields part with
    | none => do return fields ++ [(part, table .implied (← modifyAt f path []))]
    | some (value _) => none
    | some (tables items) => do
      return replace fields part (tables (← modifyLast? (modifyAt f path) items))
    | some (table origin inner) => do
      return replace fields part (table origin (← modifyAt f path inner))

/-- Gives a table a header. It must be new or only implied so far. -/
def openTable (name : String) (fields : TomlFields) : Option TomlFields :=
  match find? fields name with
  | none => some (fields ++ [(name, table .header [])])
  | some (table .implied inner) => some (replace fields name (table .header inner))
  | some _ => none

def openTables (name : String) (fields : TomlFields) : Option TomlFields :=
  match find? fields name with
  | none => some (fields ++ [(name, tables [[]])])
  | some (tables items) => some (replace fields name (tables (items ++ [[]])))
  | some _ => none

mutual

def toToml : TomlNode → Toml
  | value v => v
  | table _ fields => .table (fieldsToToml fields)
  | tables items => .list (tablesToToml items)

def fieldsToToml : TomlFields → List (String × Toml)
  | [] => []
  | (name, node) :: rest => (name, node.toToml) :: fieldsToToml rest

def tablesToToml : List TomlFields → List Toml
  | [] => []
  | fields :: rest => .table (fieldsToToml fields) :: tablesToToml rest

end

end TomlNode

end SeismicHazard
