import SeismicHazard.Storage.Store

/-!
# Several runs over one set of tables

Any number of runs are open over the same tables and save their records in turn. A run that has
finished or failed is not used any more.

* `Session.Handle`: a run in use, with the records that it has saved.
* `Session.Op`, `Session.step?`: what may be done next, what it changes and what it answers.
* `Session.run?`: what a list of operations changes.
-/

namespace SeismicHazard

namespace Session

/-- A run in use, whether it is still open, and the records that it has saved, which the run itself only
counts. -/
structure Handle (α : Type) where
  writer : RunWriter
  isOpen : Bool
  records : List (Record α)

inductive Op (α : Type) where
  | start (moment : Int) (config : Option (Config α))
  | save (handle : Nat) (record : Record α)
  | finish (handle : Nat) (moment : Int)
  | fail (handle : Nat) (moment : Int) (message : String)

end Session

/-- The tables and all runs that have been started over them. -/
structure Session (α : Type) where
  tables : Tables α
  handles : List (Session.Handle α)

namespace Session

section

variable {α : Type}

/-- No run has been started yet. -/
def ofTables (t : Tables α) : Session α := ⟨t, []⟩

def open? (s : Session α) (i : Nat) : Option (Handle α) := s.handles[i]?.filter (·.isOpen)

/-- The session after a run was closed. A run that cannot be closed is not used any more either. -/
def close (s : Session α) (i : Nat) (h : Handle α) (closed : Except StorageError (Tables α)) :
    Session α × Except StorageError Unit :=
  let handles := s.handles.set i { h with isOpen := false }
  match closed with
  | .ok t => (⟨t, handles⟩, .ok ())
  | .error e => (⟨s.tables, handles⟩, .error e)

variable [Scalar α] [BitPattern α] [DecimalText α]

/-- The session after an operation with what it answers, if the run that it is about is open. -/
def step? (s : Session α) : Op α → Option (Session α × Except StorageError Unit)
  | .start moment config =>
    match RunWriter.start s.tables moment config with
    | .ok (w, t) => some (⟨t, s.handles ++ [⟨w, true, []⟩]⟩, .ok ())
    | .error e => some (s, .error e)
  | .save i record =>
    (s.open? i).map fun h =>
      match h.writer.save s.tables record with
      | .ok (w, t) => (⟨t, s.handles.set i ⟨w, true, h.records ++ [record]⟩⟩, .ok ())
      | .error e => (s, .error e)
  | .finish i moment => (s.open? i).map fun h => s.close i h (h.writer.finish s.tables moment)
  | .fail i moment message =>
    (s.open? i).map fun h => s.close i h (h.writer.fail s.tables moment message)

/-- The session after a list of operations, if each of them is possible in its turn. -/
def run? (s : Session α) : List (Op α) → Option (Session α)
  | [] => some s
  | op :: ops => (s.step? op).bind fun next => next.1.run? ops

end

end Session

end SeismicHazard
