import SeismicHazard.Toml.Scalar
import SeismicHazard.Toml.Table
import SeismicHazard.Toml.Text

/-!
# Reading TOML

`Toml.parse?` reads a document: lines with a key and a value, headers of tables, comments and blank
lines.
-/

namespace SeismicHazard

namespace Toml

/-- What follows a comment in front, if there is one; a control character in it is refused later. -/
def skipComment : List Char → List Char
  | '#' :: rest => rest.dropWhile isPlain
  | cs => cs

/-- What follows all blanks, line breaks and comments in front, skipped in at most `fuel` steps. -/
def skipSpace : Nat → List Char → List Char
  | 0, cs => cs
  | fuel + 1, cs =>
    match skipComment (skipBlanks cs) with
    | cs =>
      match lineBreak? cs with
      | some rest => skipSpace fuel rest
      | none => cs

def endLine? (cs : List Char) : Option (List Char) :=
  match skipComment (skipBlanks cs) with
  | [] => some []
  | cs => lineBreak? cs

def skipSpaces (cs : List Char) : List Char := skipSpace (cs.length + 1) cs

mutual

/-- The value in front, read in at most `fuel` steps with at most `depth` further levels of lists and
tables. -/
def value? : Nat → Nat → List Char → Option (Toml × List Char)
  | 0, _, _ => none
  | fuel + 1, depth, cs =>
    match cs with
    | [] => none
    | c :: rest =>
      if c = '"' ∨ c = '\'' then (string? cs).map fun (s, rest) => (text (String.ofList s), rest)
      else if c = '[' then
        if depth = 0 then none
        else (items? fuel (depth - 1) (skipSpaces rest)).map fun (xs, rest) => (list xs, rest)
      else if c = '\x7b' then
        if depth = 0 then none
        else
          match skipBlanks rest with
          | '\x7d' :: rest => some (table [], rest)
          | rest =>
            (fields? fuel (depth - 1) rest []).map fun (fs, rest) =>
              (table (TomlNode.fieldsToToml fs), rest)
      else
        match scalarRun cs with
        | (['t', 'r', 'u', 'e'], rest) => some (bool true, rest)
        | (['f', 'a', 'l', 's', 'e'], rest) => some (bool false, rest)
        | (run, rest) => (scalar? run).map (·, rest)

/-- The items of a list up to its end, from where an item or the end may stand. -/
def items? : Nat → Nat → List Char → Option (List Toml × List Char)
  | 0, _, _ => none
  | fuel + 1, depth, cs =>
    match cs with
    | ']' :: rest => some ([], rest)
    | cs => do
      let (x, rest) ← value? fuel depth cs
      match skipSpaces rest with
      | ',' :: rest =>
        let (xs, rest) ← items? fuel depth (skipSpaces rest)
        return (x :: xs, rest)
      | ']' :: rest => return ([x], rest)
      | _ => none

/-- The fields of a table inside a value up to its end, from where a key must stand. -/
def fields? : Nat → Nat → List Char → TomlFields → Option (TomlFields × List Char)
  | 0, _, _, _ => none
  | fuel + 1, depth, cs, found => do
    let (path, rest) ← keyPath? cs
    match rest with
    | '=' :: rest =>
      let (v, rest) ← value? fuel depth (skipBlanks rest)
      let name ← path.getLast?
      let found ← TomlNode.insertDotted path.dropLast name v found
      match skipBlanks rest with
      | ',' :: rest => fields? fuel depth rest found
      | '\x7d' :: rest => return (found, rest)
      | _ => none
    | _ => none

end

/-- A document that is read up to some line: the table of the last header and all tables. -/
structure Document where
  current : List String
  root : TomlFields

def header? (d : Document) (cs : List Char) : Option (Document × List Char) := do
  let (path, rest) ← keyPath? cs
  let name ← path.getLast?
  match rest with
  | ']' :: rest =>
    let root ← TomlNode.modifyAt (TomlNode.openTable name) path.dropLast d.root
    return (⟨path, root⟩, rest)
  | _ => none

def tablesHeader? (d : Document) (cs : List Char) : Option (Document × List Char) := do
  let (path, rest) ← keyPath? cs
  let name ← path.getLast?
  match rest with
  | ']' :: ']' :: rest =>
    let root ← TomlNode.modifyAt (TomlNode.openTables name) path.dropLast d.root
    return (⟨path, root⟩, rest)
  | _ => none

def entry? (d : Document) (cs : List Char) : Option (Document × List Char) := do
  let (path, rest) ← keyPath? cs
  let name ← path.getLast?
  match rest with
  | '=' :: rest =>
    let (v, rest) ← value? (rest.length + 1) maxDepth (skipBlanks rest)
    let root ← TomlNode.modifyAt (TomlNode.insertDotted path.dropLast name v) d.current d.root
    return (⟨d.current, root⟩, rest)
  | _ => none

def line? (d : Document) : List Char → Option (Document × List Char)
  | '[' :: '[' :: rest => tablesHeader? d rest
  | '[' :: rest => header? d rest
  | cs => entry? d cs

/-- Reads the lines of a document, at most `fuel` of them. -/
def lines? : Nat → Document → List Char → Option Document
  | 0, _, _ => none
  | fuel + 1, d, cs =>
    match endLine? cs with
    | some [] => some d
    | some rest => lines? fuel d rest
    | none => do
      let (d, rest) ← line? d (skipBlanks cs)
      match ← endLine? rest with
      | [] => return d
      | rest => lines? fuel d rest

def skipMark : List Char → List Char
  | c :: rest => if c.toNat = 0xfeff then rest else c :: rest
  | [] => []

def parse? (s : String) : Option (List (String × Toml)) := do
  let cs := skipMark s.toList
  let d ← lines? (cs.length + 1) ⟨[], []⟩ cs
  return TomlNode.fieldsToToml d.root

end Toml

end SeismicHazard
