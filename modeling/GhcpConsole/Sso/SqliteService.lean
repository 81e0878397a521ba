import GhcpConsole.Lib.Sqlite

/-!
# Migrations of a service database

`sqliteService.ts`: the runner of migration steps with its `schema_migrations` records, columns that
are added where they are missing, and the rebuild of a table.
-/

namespace GhcpConsole.Sso

open Sql Sqlite

structure SqliteMigrationStep where
  id : String
  up : Db → Except String Db
  disableForeignKeys : Bool

structure SqliteTableRebuild where
  table : String
  /-- What the statement of `createSql` defines. -/
  schema : Schema
  copyColumns : List String
  /-- The indexes that `afterSql` creates. -/
  indexes : List Index

/-- A column and its declared type, null unless it says otherwise. -/
def column (name type : String) : Column := { name, type, notNull := false, default := .null }

/-- A `NOT NULL` column. -/
def required (name type : String) : Column := { name, type, notNull := true, default := .null }

/-- A `NOT NULL` column with a default. -/
def defaulted (name type : String) (default : Value) : Column :=
  { name, type, notNull := true, default }

def schemaMigrations : Schema where
  columns := [column "id" "TEXT", required "applied_at" "TEXT"]
  primaryKey := ["id"]
  foreignKeys := []
  checks := []

/-- Whether the column was added is whether the table did not have it. -/
def addColumnIfMissing (table name type : String) (db : Db) : Except String Db :=
  if db.hasColumn table name then .ok db else addColumn table name type db

/-- The copy of a row that takes the named columns; the others take their default. -/
def SqliteTableRebuild.copyRow (rebuild : SqliteTableRebuild) (row : Row) : Row :=
  rebuild.schema.newRow (rebuild.copyColumns.map fun column => (column, row column))

def temporaryName (table : String) : String := table ++ "_rebuild"

/-- The five statements of `rebuildTable` and its `afterSql`; a table's indexes are dropped with it. -/
def rebuildSqliteTable (rebuild : SqliteTableRebuild) (db : Db) : Except String Db :=
  match db.tables rebuild.table with
  | none => .error s!"no such table: {rebuild.table}"
  | some old =>
      if rebuild.copyColumns.all fun name => old.schema.hasColumn name then do
        let created : Table := { schema := rebuild.schema, rows := [] }
        let copied ← (old.rows.map rebuild.copyRow).foldlM Table.insert created
        let renamed : Db := {
          tables := Function.update (Function.update db.tables (temporaryName rebuild.table) none)
            rebuild.table (some copied)
          indexes := db.indexes.filter fun index =>
            index.table ≠ rebuild.table && index.table ≠ temporaryName rebuild.table }
        rebuild.indexes.foldlM (fun db index => createIndex index db) renamed
      else .error "no such column"

def isApplied (db : Db) (id : String) : Bool :=
  (db.rows "schema_migrations").any fun row => row "id" = .text id

section Steps

-- `tableNames` are the tables there are in the database, and `now` is the time.
variable (tableNames : List String) (now : String)

def assertNoForeignKeyViolations (db : Db) : Except String Unit :=
  if tableNames.all db.foreignKeysHold then .ok () else .error "foreign key violation"

/-- The record of a step. -/
def recordStep (id : String) (db : Db) : Except String Db :=
  match db.tables "schema_migrations" with
  | none => .error "no such table: schema_migrations"
  | some table => do
      let row := table.schema.newRow [("id", .text id), ("applied_at", .text now)]
      let table ← table.insert row
      return { db with tables := Function.update db.tables "schema_migrations" (some table) }

/-- One transaction. -/
def applyStep (step : SqliteMigrationStep) (db : Db) : Except String Db :=
  if isApplied db step.id then .ok db
  else do
    let db ← step.up db
    if step.disableForeignKeys then
      assertNoForeignKeyViolations tableNames db
      recordStep now step.id db
    else recordStep now step.id db

/-- The statements of `runSqliteMigrations`. -/
def runSqliteMigrations (steps : List SqliteMigrationStep) : List (Db → Except String Db) :=
  createTable "schema_migrations" schemaMigrations :: steps.map (applyStep tableNames now)

end Steps

end GhcpConsole.Sso
