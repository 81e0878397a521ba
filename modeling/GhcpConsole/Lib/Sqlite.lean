import Mathlib.Logic.Function.Basic
import Mathlib.Data.List.Basic
import GhcpConsole.Lib.Sql

/-!
# SQLite tables

The part of SQLite that schema migrations use: tables with their columns, keys and rows, the
statements that define and alter them, and the checks of the constraints.
-/

namespace GhcpConsole.Sqlite

open Sql

structure Column where
  name : String
  type : String
  notNull : Bool
  default : Value
deriving DecidableEq, Repr

inductive OnDelete
  | noAction | restrict | cascade
deriving DecidableEq, Repr

structure ForeignKey where
  columns : List String
  parent : String
  parentColumns : List String
  onDelete : OnDelete
deriving DecidableEq, Repr

structure Schema where
  columns : List Column
  primaryKey : List String
  foreignKeys : List ForeignKey
  /-- `CHECK (column = value)`. -/
  checks : List (String × Value)
deriving DecidableEq, Repr

structure Table where
  schema : Schema
  rows : List Row

structure Index where
  name : String
  table : String
  columns : List String
deriving DecidableEq, Repr

structure Db where
  tables : String → Option Table
  indexes : List Index

def Schema.hasColumn (schema : Schema) (column : String) : Bool :=
  schema.columns.any (·.name = column)

/-- A column of the table info; a table that does not exist has none. -/
def Db.hasColumn (db : Db) (table column : String) : Bool :=
  (db.tables table).any (·.schema.hasColumn column)

def Db.rows (db : Db) (table : String) : List Row := (db.tables table).elim [] (·.rows)

/-! ## Constraints -/

def Table.admits (table : Table) (row : Row) : Bool :=
  (table.schema.columns.all fun column => !column.notNull || row column.name ≠ .null)
    && (table.schema.checks.all fun check => row check.1 = check.2 || row check.1 = .null)
    && !table.rows.any (sameKey table.schema.primaryKey row)

def Db.hasParent (db : Db) (key : ForeignKey) (row : Row) : Bool :=
  key.columns.any (fun column => row column = .null)
    || (db.tables key.parent).any fun parent => parent.rows.any fun other =>
      (key.columns.zip key.parentColumns).all fun (column, parentColumn) =>
        sameValue (row column) (other parentColumn)

def Db.foreignKeysHold (db : Db) (table : String) : Bool :=
  (db.tables table).all fun t => t.rows.all fun row => t.schema.foreignKeys.all (db.hasParent · row)

/-! ## Statements -/

/-- `CREATE TABLE IF NOT EXISTS`. -/
def createTable (name : String) (schema : Schema) (db : Db) : Except String Db :=
  if (db.tables name).isSome then .ok db
  else .ok { db with tables := Function.update db.tables name (some { schema, rows := [] }) }

/-- `CREATE INDEX IF NOT EXISTS`. -/
def createIndex (index : Index) (db : Db) : Except String Db :=
  if db.indexes.any (·.name = index.name) then .ok db
  else if (db.tables index.table).isSome then .ok { db with indexes := db.indexes ++ [index] }
  else .error s!"no such table: {index.table}"

def alter (name : String) (f : Table → Table) (db : Db) : Except String Db :=
  match db.tables name with
  | some table => .ok { db with tables := Function.update db.tables name (some (f table)) }
  | none => .error s!"no such table: {name}"

/-- `ALTER TABLE ... ADD COLUMN`, without a default. -/
def addColumn (name column type : String) : Db → Except String Db :=
  alter name fun table =>
    { table with schema := { table.schema with
        columns := table.schema.columns
          ++ [{ name := column, type, notNull := false, default := .null }] } }

/-- `ALTER TABLE ... DROP COLUMN`. -/
def dropColumn (name column : String) : Db → Except String Db :=
  alter name fun table => {
    schema := { table.schema with columns := table.schema.columns.filter (·.name ≠ column) }
    rows := table.rows.map fun row => Function.update row column .null }

/-- `UPDATE ... SET ... WHERE`. -/
def update (name : String) (set : List (String × Value)) (where_ : Row → Bool) :
    Db → Except String Db :=
  alter name fun table => { table with
    rows := table.rows.map fun row =>
      if where_ row then set.foldl (fun row (column, value) => Function.update row column value) row
      else row }

/-- The row that an `INSERT` of these values makes. -/
def Schema.newRow (schema : Schema) (values : List (String × Value)) : Row := fun column =>
  match values.find? (·.1 = column) with
  | some (_, value) => value
  | none => ((schema.columns.find? (·.name = column)).map (·.default)).getD .null

/-- `INSERT OR IGNORE`: a row that a constraint refuses is left out. -/
def insertOrIgnore (name : String) (values : List (String × Value)) (db : Db) : Except String Db :=
  match db.tables name with
  | none => .error s!"no such table: {name}"
  | some table =>
      if values.all fun value => table.schema.hasColumn value.1 then
        let row := table.schema.newRow values
        if table.admits row then
          if table.schema.foreignKeys.all (db.hasParent · row) then
            .ok { db with
              tables := Function.update db.tables name (some { table with rows := table.rows ++ [row] }) }
          else .error "FOREIGN KEY constraint failed"
        else .ok db
      else .error s!"table {name} has no such column"

/-- `INSERT`, with foreign keys off. -/
def Table.insert (table : Table) (row : Row) : Except String Table :=
  if table.admits row then .ok { table with rows := table.rows ++ [row] }
  else .error "constraint failed"

/-! ## What a statement does -/

section Effects

variable {db db' : Db} {name column type : String} {schema : Schema} {index : Index}
variable {f : Table → Table} {values : List (String × Value)} {table : Table}

/-- The tables with one of them in a new state. -/
def Db.put (db : Db) (name : String) (table : Table) : Db :=
  { db with tables := Function.update db.tables name (some table) }

@[simp] theorem Db.put_tables_self : (db.put name table).tables name = some table :=
  Function.update_self ..

theorem Db.put_tables_ne {other : String} (h : other ≠ name) :
    (db.put name table).tables other = db.tables other :=
  Function.update_of_ne h ..

@[simp] theorem Db.put_indexes : (db.put name table).indexes = db.indexes := rfl

theorem Db.put_of_some (h : db.tables name = some table) : db.put name table = db := by
  rw [Db.put, ← h, Function.update_eq_self]

theorem createTable_ok (h : createTable name schema db = .ok db') :
    ((db.tables name).isSome = true ∧ db' = db)
      ∨ (db.tables name = none ∧ db' = db.put name { schema, rows := [] }) := by
  unfold createTable at h
  split at h
  · rename_i hsome
    exact .inl ⟨hsome, (Except.ok.inj h).symm⟩
  · rename_i hnone
    exact .inr ⟨Option.not_isSome_iff_eq_none.mp hnone, (Except.ok.inj h).symm⟩

theorem createIndex_ok (h : createIndex index db = .ok db') :
    (db.indexes.any (·.name = index.name) = true ∧ db' = db)
      ∨ (db.indexes.any (·.name = index.name) = false
        ∧ db' = { db with indexes := db.indexes ++ [index] }) := by
  unfold createIndex at h
  split at h
  · rename_i hany
    exact .inl ⟨hany, (Except.ok.inj h).symm⟩
  · rename_i hnone
    split at h
    · exact .inr ⟨Bool.eq_false_iff.mpr hnone, (Except.ok.inj h).symm⟩
    · cases h

theorem alter_ok (h : alter name f db = .ok db') :
    ∃ table, db.tables name = some table ∧ db' = db.put name (f table) := by
  unfold alter at h
  split at h
  · rename_i table htable
    exact ⟨table, htable, (Except.ok.inj h).symm⟩
  · cases h

theorem alter_of_some (h : db.tables name = some table) :
    alter name f db = .ok (db.put name (f table)) := by
  unfold alter
  rw [h]
  rfl

/-- An update that meets no row changes nothing. -/
theorem update_of_none {set : List (String × Value)} {where_ : Row → Bool}
    (h : db.tables name = some table) (hnone : ∀ row ∈ table.rows, where_ row = false) :
    update name set where_ db = .ok db := by
  have hrows : (table.rows.map fun row =>
      if where_ row then set.foldl (fun row (column, value) => Function.update row column value) row
      else row) = table.rows :=
    (List.map_congr_left fun row hrow => by rw [hnone row hrow, if_neg Bool.false_ne_true]).trans
      (List.map_id' _)
  rw [update, alter_of_some h, hrows, Db.put_of_some h]

theorem insertOrIgnore_ok (h : insertOrIgnore name values db = .ok db') :
    ∃ table, db.tables name = some table
      ∧ (values.all fun value => table.schema.hasColumn value.1) = true
      ∧ ((table.admits (table.schema.newRow values) = false ∧ db' = db)
        ∨ db' = db.put name { table with rows := table.rows ++ [table.schema.newRow values] }) := by
  unfold insertOrIgnore at h
  split at h
  · cases h
  · rename_i table htable
    split at h
    · rename_i hcolumns
      refine ⟨table, htable, hcolumns, ?_⟩
      simp only at h
      split at h
      · split at h
        · exact .inr (Except.ok.inj h).symm
        · cases h
      · rename_i hrefused
        exact .inl ⟨Bool.eq_false_iff.mpr hrefused, (Except.ok.inj h).symm⟩
    · cases h

/-- A row with the key of one that is there is left out. -/
theorem insertOrIgnore_of_sameKey {row : Row} (htable : db.tables name = some table)
    (hcolumns : (values.all fun value => table.schema.hasColumn value.1) = true)
    (hrow : row ∈ table.rows)
    (hkey : sameKey table.schema.primaryKey (table.schema.newRow values) row = true) :
    insertOrIgnore name values db = .ok db := by
  have hrefused : table.admits (table.schema.newRow values) = false := by
    simp only [Table.admits, Bool.and_eq_false_iff, Bool.not_eq_false']
    exact .inr (List.any_eq_true.mpr ⟨row, hrow, hkey⟩)
  simp only [insertOrIgnore, htable, hcolumns, hrefused, if_true, Bool.false_eq_true, if_false]

/-- A row that breaks no rule of its own is refused for the key of another. -/
theorem Table.refused_sameKey {row : Row} (h : table.admits row = false)
    (hnull : (table.schema.columns.all fun column => !column.notNull || row column.name ≠ .null)
      = true)
    (hchecks : (table.schema.checks.all fun check => row check.1 = check.2 || row check.1 = .null)
      = true) :
    ∃ other ∈ table.rows, sameKey table.schema.primaryKey row other = true := by
  unfold Table.admits at h
  rw [hnull, hchecks, Bool.true_and, Bool.true_and, Bool.not_eq_false'] at h
  exact List.any_eq_true.mp h

theorem newRow_of_mem {value : Value} (h : values.find? (·.1 = column) = some (column, value)) :
    schema.newRow values column = value := by
  simp only [Schema.newRow, h]

theorem Table.insert_ok {row : Row} {table' : Table} (h : table.insert row = .ok table') :
    table' = { table with rows := table.rows ++ [row] } := by
  unfold Table.insert at h
  split at h
  · exact (Except.ok.inj h).symm
  · cases h

theorem foldlM_insert_ok {rows : List Row} {table' : Table}
    (h : rows.foldlM Table.insert table = .ok table') :
    table' = { table with rows := table.rows ++ rows } := by
  induction rows generalizing table with
  | nil => simpa using (Except.ok.inj h).symm
  | cons row rows ih =>
      rw [List.foldlM_cons] at h
      cases hrow : table.insert row with
      | error e =>
          rw [hrow] at h
          cases h
      | ok mid =>
          rw [hrow] at h
          obtain rfl := Table.insert_ok hrow
          simpa using ih h

theorem Db.hasColumn_eq (h : db.tables name = some table) :
    db.hasColumn name column = table.schema.hasColumn column := by
  rw [Db.hasColumn, h, Option.any_some]

theorem Db.rows_eq (h : db.tables name = some table) : db.rows name = table.rows := by
  rw [Db.rows, h]
  rfl

end Effects

end GhcpConsole.Sqlite
