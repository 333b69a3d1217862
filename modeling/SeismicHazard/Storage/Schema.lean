import SeismicHazard.Storage.Error

/-!
# The schema of the result store and its migrations

A migration is a list of statements, after which the version of the schema is raised. Every statement
takes effect by itself: one that fails leaves what the statements in front of it have done.

* `Schema`: the version, the tables with their columns, and the indexes.
* `Schema.keptVersion`: the version that a database keeps.
* `SchemaStep`: a statement on the schema.
* `migrations`: the history of the schema.
* `Schema.migrate`: brings a schema up to date.
-/

namespace SeismicHazard

structure TableSchema where
  name : String
  columns : List String
deriving DecidableEq

structure IndexSchema where
  name : String
  table : String
  columns : List String
deriving DecidableEq

structure Schema where
  version : Nat
  tables : List TableSchema
  indexes : List IndexSchema
deriving DecidableEq

inductive SchemaStep where
  /-- Makes a table, unless there is one of its name. -/
  | createTable (table : TableSchema)
  /-- Makes an index on columns of a table, unless there is one of its name. -/
  | createIndex (index : IndexSchema)
  | addColumn (table column : String)
  | setVersion (version : Nat)
deriving DecidableEq

/-- The statements that lead to a version of the schema. -/
structure Migration where
  version : Nat
  statements : List SchemaStep

/-- The first schema: runs, their results, and the arrays of each result. -/
def initialMigration : Migration where
  version := 1
  statements := [
    .createTable ⟨"disagg_run",
      ["id", "started_at", "completed_at", "status", "num_results", "error"]⟩,
    .createIndex ⟨"idx_disagg_run_started", "disagg_run", ["started_at"]⟩,
    .createTable ⟨"disagg_result",
      ["id", "run_id", "name", "site_id", "lon", "lat", "rlz_id", "imt", "iml", "poe",
        "investigation_time", "trts_json", "edges_json", "poe_agg_json"]⟩,
    .createIndex ⟨"idx_disagg_result_site", "disagg_result", ["run_id", "site_id"]⟩,
    .createIndex ⟨"idx_disagg_result_name", "disagg_result", ["name"]⟩,
    .createTable ⟨"disagg_matrix", ["result_id", "ordinal", "pmf", "shape_json", "data"]⟩]

/-- Runs keep the configuration they were started with. -/
def configMigration : Migration where
  version := 2
  statements := [.addColumn "disagg_run" "config_toml"]

def migrations : List Migration := [initialMigration, configMigration]

def Migration.steps (m : Migration) : List (Nat × SchemaStep) :=
  (m.statements ++ [SchemaStep.setVersion m.version]).map fun step => (m.version, step)

/-- The steps that a schema of the given version still lacks. -/
def pendingSteps (version : Nat) : List (Nat × SchemaStep) :=
  (migrations.filter (version < ·.version)).flatMap Migration.steps

namespace Schema

/-- The version that a database keeps when it is given `version`: one of more than 31 bits is taken for
none. -/
def keptVersion (version : Nat) : Nat := if version < UInt32.size / 2 then version else 0

/-- The schema of a database without tables that was given a version. -/
def ofVersion (version : Nat) : Schema := ⟨keptVersion version, [], []⟩

def empty : Schema := ofVersion 0

def table? (s : Schema) (name : String) : Option TableSchema := s.tables.find? (·.name == name)

def hasIndex (s : Schema) (name : String) : Bool := s.indexes.any (·.name == name)

def addColumn (s : Schema) (table column : String) : Schema :=
  { s with
    tables := s.tables.map fun t =>
      if t.name == table then { t with columns := t.columns ++ [column] } else t }

/-- The schema after a statement. -/
def step (s : Schema) : SchemaStep → Except Refusal Schema
  | .createTable t =>
    if (s.table? t.name).isSome then .ok s else .ok { s with tables := s.tables ++ [t] }
  | .createIndex index =>
    match s.table? index.table with
    | none => .error (.noTable ("main." ++ index.table))
    | some t =>
      if s.hasIndex index.name then .ok s
      else
        match index.columns.find? (· ∉ t.columns) with
        | some column => .error (.noColumn index.table column)
        | none => .ok { s with indexes := s.indexes ++ [index] }
  | .addColumn table column =>
    match s.table? table with
    | none => .error (.noTable table)
    | some t =>
      if column ∈ t.columns then .error (.duplicateColumn column)
      else .ok (s.addColumn table column)
  | .setVersion version => .ok { s with version := keptVersion version }

/-- The schema after several steps, up to the first that fails. -/
def run (s : Schema) : List (Nat × SchemaStep) → Schema × Option StorageError
  | [] => (s, none)
  | (version, step) :: rest =>
    match s.step step with
    | .ok s => s.run rest
    | .error refusal => (s, some (.migration version refusal))

/-- The schema with all the migrations that it lacks, up to the first statement that fails. -/
def migrate (s : Schema) : Schema × Option StorageError := s.run (pendingSteps s.version)

end Schema

end SeismicHazard
