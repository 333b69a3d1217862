import SeismicHazard.Config.Error

/-!
# What can go wrong in the result store

* `Refusal`: the reasons for which the tables refuse a statement.
* `Unreadable`: the reasons for which stored columns do not make a record.
* `StorageError`: these, a failed migration, and a row that is not there.
-/

namespace SeismicHazard

/-- A reason for which the tables refuse a statement. -/
inductive Refusal where
  /-- A value is missing in a column that needs one. -/
  | missing (table column : String)
  /-- The columns of a table already hold these values together. -/
  | duplicate (table : String) (columns : List String)
  /-- The row that a reference points to is not there. -/
  | danglingReference
  | readOnly
  | noTable (table : String)
  | noColumn (table column : String)
  | duplicateColumn (column : String)
  /-- No database can be opened at a path. -/
  | noDatabase (path : String)
  /-- A reader finds no database at a path. -/
  | noReader (path : String)
  | other (reason : String)

namespace Refusal

def message : Refusal → String
  | missing table column => "NOT NULL constraint failed: " ++ table ++ "." ++ column
  | duplicate table columns =>
    "UNIQUE constraint failed: " ++ ", ".intercalate (columns.map fun c => table ++ "." ++ c)
  | danglingReference => "FOREIGN KEY constraint failed"
  | readOnly => "attempt to write a readonly database"
  | noTable table => "no such table: " ++ table
  | noColumn table column => "table " ++ table ++ " has no column named " ++ column
  | duplicateColumn column => "duplicate column name: " ++ column
  | noDatabase path => "unable to open database file: " ++ path
  | noReader path =>
    "cannot open reader on " ++ path ++ ": unable to open database file: " ++ path
  | other reason => reason

end Refusal

/-- A reason for which stored columns do not make a record, or a record does not make columns. -/
inductive Unreadable where
  | text
  | realization (id : Int)
  /-- A payload whose bytes are no whole number of doubles. -/
  | partialNumber (bytes : Nat)
  /-- A payload whose length does not fit its shape. -/
  | count (shape : List Nat) (expected actual : Nat)
  /-- A shape beyond the sizes that arrays can have. -/
  | shapeTooLarge
  | config (error : ConfigError)
  | other (reason : String)

def showShape (shape : List Nat) : String :=
  "[" ++ ", ".intercalate (shape.map Nat.repr) ++ "]"

namespace Unreadable

/-- The reason in words; a column that does not parse gives none. -/
def message? : Unreadable → Option String
  | text => none
  | realization id => some ("realization id " ++ id.repr)
  | partialNumber bytes =>
    some ("array payload of " ++ bytes.repr ++ " bytes is not a whole number of f64")
  | count shape expected actual =>
    some ("shape " ++ showShape shape ++ " needs " ++ expected.repr ++ " values, payload has "
      ++ actual.repr)
  | shapeTooLarge =>
    some "ShapeError/Overflow: arithmetic overflow"
  | config e => some e.message
  | other reason => some reason

end Unreadable

inductive StorageError where
  | refused (refusal : Refusal)
  | migration (version : Nat) (refusal : Refusal)
  | unreadable (reason : Unreadable)
  | notFound (what : String)

namespace StorageError

def code : StorageError → String
  | migration _ _ => "MIGRATION_FAILED"
  | _ => "STORAGE_ERROR"

def message : StorageError → String
  | refused r => "SQLite error: " ++ r.message
  | migration version r => "Migration to v" ++ version.repr ++ " failed: " ++ r.message
  | unreadable reason =>
    match reason.message? with
    | none => "Serialization error"
    | some text => "Serialization error: " ++ text
  | notFound what => "Not found: " ++ what

end StorageError

end SeismicHazard
