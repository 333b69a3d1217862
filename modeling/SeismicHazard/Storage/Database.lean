import SeismicHazard.Storage.Schema
import SeismicHazard.Storage.Tables

/-!
# Databases and their readers

A database holds the tables of the result store. It is kept in memory or in a file; a file can also be
opened by readers, which cannot change it.

* `Database.create`: a database without rows and with an up-to-date schema.
* `Database.deleteThroughReader`: a change by way of a reader.
* `ReaderPool`: readers of one file, each of which serves one look-up at a time.
* `ReaderPool.acquire?`: the reader that serves the next look-up.
-/

namespace SeismicHazard

/-- Where a database is kept. -/
inductive Place where
  | memory
  | file (path : String)
deriving DecidableEq

structure Database (α : Type) where
  place : Place
  schema : Schema
  tables : Tables α

namespace Database

variable {α : Type}

/-- A database at a place. A schema of an older version is brought up to date. -/
def ofSchema (place : Place) (schema : Schema) (tables : Tables α) :
    Except StorageError (Database α) :=
  match schema.migrate with
  | (schema, none) => .ok ⟨place, schema, tables⟩
  | (_, some e) => .error e

def create (place : Place) (writable : Bool) : Except StorageError (Database α) :=
  match place, writable with
  | .file path, false => .error (.refused (.noDatabase path))
  | _, _ => ofSchema place .empty .empty

def reopen (d : Database α) : Except StorageError (Database α) := ofSchema d.place d.schema d.tables

def version (d : Database α) : Nat := d.schema.version

def hasFile (d : Database α) : Bool :=
  match d.place with
  | .memory => false
  | .file _ => true

/-- Whether changes go to a log before they go to the tables. There is a log beside a file only. -/
def hasLog (d : Database α) : Bool := d.hasFile

/-- Deletes all runs through a reader, and counts them. The readers of a file cannot write; in memory
the writer is also the reader. -/
def deleteThroughReader (d : Database α) : Except StorageError (Nat × Database α) :=
  if d.hasFile then .error (.refused .readOnly)
  else
    let (count, tables) := d.tables.deleteRuns
    .ok (count, { d with tables := tables })

end Database

/-- Readers of a database, of which some are busy, and the place where the search for an idle one
begins. -/
structure ReaderPool (α : Type) where
  database : Database α
  busy : List Bool
  cursor : Nat

namespace ReaderPool

section

variable {α : Type}

/-- Readers of the database at a path, at least one. -/
def ofFile (path : String) (found : Option (Database α)) (count : Nat) :
    Except StorageError (ReaderPool α) :=
  match found with
  | none => .error (.refused (.noReader path))
  | some d => .ok ⟨d, List.replicate (Max.max count 1) false, 0⟩

def size (p : ReaderPool α) : Nat := p.busy.length

def searchOrder (p : ReaderPool α) : List Nat :=
  (List.range p.size).map fun i => (p.cursor + i) % p.size

/-- Takes the first idle reader, if there is one. The next search begins one place later. -/
def acquire? (p : ReaderPool α) : Option (Nat × ReaderPool α) := do
  let i ← p.searchOrder.find? fun i => p.busy[i]? == some false
  return (i, { p with busy := p.busy.set i true, cursor := p.cursor + 1 })

def release (p : ReaderPool α) (i : Nat) : ReaderPool α := { p with busy := p.busy.set i false }

/-- What look-ups within each other find, the outer one first, and the pool after them. There must be
an idle reader for each; one that finds none would wait for ever. -/
def nested? {β : Type} (lookUp : Database α → β) :
    Nat → ReaderPool α → Option (List β × ReaderPool α)
  | 0, p => some ([], p)
  | depth + 1, p => do
    let (i, p) ← p.acquire?
    let (found, p) ← nested? lookUp depth p
    return (lookUp p.database :: found, p.release i)

/-- Deletes all runs through a reader, which it refuses. -/
def delete (_ : ReaderPool α) : Except StorageError Nat := .error (.refused .readOnly)

end

end ReaderPool

end SeismicHazard
