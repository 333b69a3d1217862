import SeismicHazard.Storage.Row

/-!
# The tables of the result store

Runs, their results and the views of the results. No two results of a run share a site and a name, no
two views of a result share a name, every result belongs to a run and every view to a result. Numbers
of runs and results are given out in order and never again.

* `Tables.insertRun`, `Tables.closeRun`, `Tables.deleteRun`: runs.
* `Tables.insertRecord`: a result with its views, all or nothing.
* `Tables.run?`, `Tables.results`, `Tables.resultsAt`, `Tables.resultNamed?`, `Tables.views`: look-ups.
-/

namespace SeismicHazard

/-- The rows of each table in the order of their insertion, and the last numbers given out. -/
structure Tables (α : Type) where
  runs : List RunRow
  resultRows : List (ResultRow α)
  viewRows : List ViewRow
  lastRun : Int
  lastResult : Int

namespace Tables

section

variable {α : Type}

def empty : Tables α := ⟨[], [], [], 0, 0⟩

/-! ### Look-ups -/

def run? (t : Tables α) (run : Int) : Option RunRow := t.runs.find? (·.id == run)

def results (t : Tables α) (run : Int) : List (ResultRow α) := t.resultRows.filter (·.run == run)

def resultsAt (t : Tables α) (run : Int) (site : Nat) : List (ResultRow α) :=
  (t.results run).filter (·.site == site)

def resultNamed? (t : Tables α) (run : Int) (name : String) : Option (ResultRow α) :=
  (t.results run).find? (·.name == name)

def views (t : Tables α) (result : Int) : List ViewRow := t.viewRows.filter (·.result == result)

/-! ### Runs -/

def insertRun (t : Tables α) (started : Int) (config : Option String) : Int × Tables α :=
  let id := t.lastRun + 1
  (id, { t with
    runs := t.runs ++ [⟨id, started, none, "running", none, none, config⟩]
    lastRun := id })

def closeRun (t : Tables α) (run completed numResults : Int) (status : String)
    (error : Option String) : Except StorageError (Tables α) :=
  if (t.run? run).isNone then .error (.notFound ("run " ++ run.repr))
  else
    .ok { t with
      runs := t.runs.map fun r =>
        if r.id == run then
          { r with
            completed := some completed
            numResults := some numResults
            status := status
            error := error }
        else r }

/-- The tables without a run and all that belongs to it, and the number of runs deleted. -/
def deleteRun (t : Tables α) (run : Int) : Nat × Tables α :=
  ((t.runs.filter (·.id == run)).length,
    { t with
      runs := t.runs.filter (·.id != run)
      resultRows := t.resultRows.filter (·.run != run)
      viewRows := t.viewRows.filter fun v => !(t.results run).any (·.id == v.result) })

def deleteRuns (t : Tables α) : Nat × Tables α :=
  (t.runs.length, { t with runs := [], resultRows := [], viewRows := [] })

/-! ### Results -/

def insertResult [Scalar α] (t : Tables α) (run : Int) (c : ResultColumns α) :
    Except Refusal (Int × Tables α) :=
  match c.missing? with
  | some column => .error (.missing "disagg_result" column)
  | none =>
    if (t.resultsAt run c.site).any (·.name == c.name) then
      .error (.duplicate "disagg_result" ["run_id", "site_id", "name"])
    else if (t.run? run).isNone then .error .danglingReference
    else
      let id := t.lastResult + 1
      .ok (id, { t with
        resultRows := t.resultRows ++ [⟨c, id, run⟩]
        lastResult := id })

def insertView (t : Tables α) (result : Int) (ordinal : Nat) (c : ViewColumns) :
    Except Refusal (Tables α) :=
  if (t.views result).any (·.name == c.name) then
    .error (.duplicate "disagg_matrix" ["result_id", "pmf"])
  else if !t.resultRows.any (·.id == result) then .error .danglingReference
  else .ok { t with viewRows := t.viewRows ++ [⟨c, result, ordinal⟩] }

/-- Several views more, numbered from `ordinal` on. -/
def insertViews (t : Tables α) (result : Int) : Nat → List ViewColumns → Except Refusal (Tables α)
  | _, [] => .ok t
  | ordinal, c :: rest => do
    let t ← t.insertView result ordinal c
    t.insertViews result (ordinal + 1) rest

/-- A result with its views. If one of the rows is refused, none is kept. -/
def insertRecord [Scalar α] [BitPattern α] (t : Tables α) (run : Int) (r : Record α) :
    Except Refusal (Tables α) := do
  let (id, t) ← t.insertResult run (.ofRecord r)
  t.insertViews id 0 (ViewColumns.ofRecord r)

end

end Tables

end SeismicHazard
