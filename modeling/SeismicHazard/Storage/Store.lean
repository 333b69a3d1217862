import SeismicHazard.Config.Document
import SeismicHazard.Storage.Tables

/-!
# Saving and loading the records of a run

* `RunWriter`: an open run. It is started, saves records one by one, and is finished or fails.
* `RunWriter.sink`: a run that a calculation hands its records to.
* `Tables.loadRecords`, `Tables.loadRecord`: the records of a run.
-/

namespace SeismicHazard

/-- An open run and the number of records that it has saved. -/
structure RunWriter where
  run : Int
  saved : Nat
deriving DecidableEq

namespace RunWriter

section

variable {α : Type} [Scalar α]

def configText [DecimalText α] (config : Option (Config α)) : Except StorageError (Option String) :=
  match config with
  | none => .ok none
  | some c =>
    match c.toToml with
    | .ok text => .ok (some text)
    | .error e => .error (.unreadable (.config e))

/-- Starts a run at a moment. The configuration is kept with it if one is given. -/
def start [DecimalText α] (t : Tables α) (moment : Int) (config : Option (Config α)) :
    Except StorageError (RunWriter × Tables α) := do
  let text ← configText config
  let (id, t) := t.insertRun moment text
  return (⟨id, 0⟩, t)

def save [BitPattern α] (w : RunWriter) (t : Tables α) (r : Record α) :
    Except StorageError (RunWriter × Tables α) :=
  match t.insertRecord w.run r with
  | .ok t => .ok (⟨w.run, w.saved + 1⟩, t)
  | .error refusal => .error (.refused refusal)

/-- A run with its tables as a sink of records. -/
def sink [BitPattern α] (s : RunWriter × Tables α) (r : Record α) :
    Except (Error α) (RunWriter × Tables α) :=
  (s.1.save s.2 r).mapError .storage

end

section

variable {α : Type}

def finish (w : RunWriter) (t : Tables α) (moment : Int) : Except StorageError (Tables α) :=
  t.closeRun w.run moment w.saved "completed" none

/-- Closes a run that failed at a moment. The records saved so far are kept. -/
def fail (w : RunWriter) (t : Tables α) (moment : Int) (message : String) :
    Except StorageError (Tables α) :=
  t.closeRun w.run moment w.saved "failed" (some message)

end

end RunWriter

namespace Tables

section

variable {α : Type} [Scalar α] [BitPattern α] [DecimalText α]

def recordOf (t : Tables α) (row : ResultRow α) : Except StorageError (Record α) :=
  (row.record (t.views row.id)).mapError .unreadable

/-- The records of a run in the order in which they were saved. -/
def loadRecords (t : Tables α) (run : Int) : Except StorageError (List (Record α)) :=
  (t.results run).mapM t.recordOf

def loadRecord (t : Tables α) (run : Int) (name : String) : Except StorageError (Record α) :=
  match t.resultNamed? run name with
  | some row => t.recordOf row
  | none => .error (.notFound ("result '" ++ name ++ "' in run " ++ run.repr))

end

end Tables

end SeismicHazard
