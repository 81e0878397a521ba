import GhcpConsole.Lib.Tx
import GhcpConsole.Sso.Migrations

/-!
# What a migration statement changes

A statement leaves the database as it is or gives one table a new state (`Changes`); a step of the
upgrade does that to the tables it rebuilds and to `schema_migrations`. Nothing that an earlier
statement looks for goes away (`Progress`), so the run can be started over.
-/

namespace GhcpConsole.Sso

open Sql Sqlite

/-! ## Indexes -/

/-- Indexes of the plan rows stay, and their name is not taken by another. -/
structure KeepsIndexes (indexes indexes' : List Index) : Prop where
  kept : ∀ index ∈ indexes, index.table = "sso_emu_import_plan_rows" → index ∈ indexes'
  named : ∀ index ∈ indexes', index ∈ indexes ∨ index = Baseline.importPlanRowsStatus
    ∨ index.name ≠ Baseline.importPlanRowsStatus.name

section Indexes

variable {db db' : Db} {index : Index} {indexes indexes' indexes'' : List Index}

theorem KeepsIndexes.refl : KeepsIndexes indexes indexes :=
  ⟨fun _ h _ => h, fun _ h => .inl h⟩

theorem KeepsIndexes.trans (h : KeepsIndexes indexes indexes') (h' : KeepsIndexes indexes' indexes'') :
    KeepsIndexes indexes indexes'' where
  kept index hindex htable := h'.kept index (h.kept index hindex htable) htable
  named index hindex := by
    rcases h'.named index hindex with hold | hnew
    · exact h.named index hold
    · exact .inr hnew

theorem createIndex_keeps
    (hname : index = Baseline.importPlanRowsStatus ∨ index.name ≠ Baseline.importPlanRowsStatus.name)
    (h : createIndex index db = .ok db') :
    db'.tables = db.tables ∧ KeepsIndexes db.indexes db'.indexes := by
  rcases createIndex_ok h with ⟨-, rfl⟩ | ⟨-, rfl⟩
  · exact ⟨rfl, .refl⟩
  · refine ⟨rfl, ⟨fun i hi _ => List.mem_append_left _ hi, fun i hi => ?_⟩⟩
    rcases List.mem_append.mp hi with hi | hi
    · exact .inl hi
    · obtain rfl := List.mem_singleton.mp hi
      exact .inr hname

theorem createIndexes_keeps (hnames : ∀ index ∈ indexes, index.name ≠ Baseline.importPlanRowsStatus.name)
    (h : indexes.foldlM (fun db index => createIndex index db) db = .ok db') :
    db'.tables = db.tables ∧ KeepsIndexes db.indexes db'.indexes := by
  induction indexes generalizing db with
  | nil =>
      obtain rfl := Except.ok.inj h
      exact ⟨rfl, .refl⟩
  | cons index indexes ih =>
      rw [List.foldlM_cons, except_bind_eq_ok] at h
      obtain ⟨mid, hindex, hrest⟩ := h
      rw [List.forall_mem_cons] at hnames
      obtain ⟨htables, hkeeps⟩ := createIndex_keeps (.inr hnames.1) hindex
      obtain ⟨htables', hkeeps'⟩ := ih hnames.2 hrest
      exact ⟨htables'.trans htables, hkeeps.trans hkeeps'⟩

end Indexes

/-! ## One table -/

/-- One table has a new state, and the database no table that it should not have. -/
structure Changes (name : String) (table : Table) (db db' : Db) : Prop where
  table : db'.tables name = some table
  others : ∀ t ∈ ssoTables, t ≠ name → db'.tables t = db.tables t
  outside : ∀ t ∉ ssoTables, db.tables t = none → db'.tables t = none
  indexes : KeepsIndexes db.indexes db'.indexes

section Changes

variable {db db' db'' : Db} {name other type id now : String} {table table' : Table}
variable {schema : Schema} {values : List (String × Value)} {rebuild : SqliteTableRebuild}

theorem put_changes (hname : name ∈ ssoTables) : Changes name table db (db.put name table) where
  table := Db.put_tables_self
  others _ _ hne := Db.put_tables_ne hne
  outside t ht hnone := by
    have hne : t ≠ name := fun h => ht (h ▸ hname)
    rw [Db.put_tables_ne hne, hnone]
  indexes := .refl

theorem Changes.trans (h : Changes name table db db') (h' : Changes name table' db' db'') :
    Changes name table' db db'' where
  table := h'.table
  others t ht hne := (h'.others t ht hne).trans (h.others t ht hne)
  outside t ht hnone := h'.outside t ht (h.outside t ht hnone)
  indexes := h.indexes.trans h'.indexes

theorem addColumnIfMissing_ok (h : addColumnIfMissing name other type db = .ok db') :
    (db.hasColumn name other = true ∧ db' = db)
      ∨ (db.hasColumn name other = false ∧ ∃ table, db.tables name = some table
        ∧ db' = db.put name { table with schema := { table.schema with
            columns := table.schema.columns ++ [column other type] } }) := by
  unfold addColumnIfMissing at h
  split at h
  · rename_i hhas
    exact .inl ⟨hhas, (Except.ok.inj h).symm⟩
  · rename_i hlacks
    obtain ⟨table, htable, rfl⟩ := alter_ok h
    exact .inr ⟨Bool.eq_false_iff.mpr hlacks, table, htable, rfl⟩

/-- The columns that statements add to a table that does not have them. -/
def addedColumns : List (String × String) :=
  [("sso_emu_import_plan_rows", "copilot_seat_status"),
    ("sso_users", "copilot_seat_pending_cancellation_date"),
    ("sso_emu_import_plan_rows", "copilot_seat_pending_cancellation_date")]

/-- A table of the upgrade that is rebuilt, and what its new schema has to have. -/
structure Rebuilds (rebuild : SqliteTableRebuild) : Prop where
  table : rebuild.table ∈ ssoTables
  temporary : temporaryName rebuild.table ∉ ssoTables
  apart : rebuild.table ≠ "sso_emu_import_plan_rows"
    ∧ temporaryName rebuild.table ≠ "sso_emu_import_plan_rows"
  indexes : ∀ index ∈ rebuild.indexes, index.name ≠ Baseline.importPlanRowsStatus.name
  columns : ∀ added ∈ addedColumns, added.1 = rebuild.table →
    rebuild.schema.hasColumn added.2 = true
  records : rebuild.table ≠ "schema_migrations"
  enterprises : rebuild.table ≠ "sso_enterprises"
  settings : rebuild.table = "sso_runtime_settings" → rebuild.schema = createRuntimeSettings

theorem rebuildSqliteTable_ok (hrebuild : Rebuilds rebuild)
    (h : rebuildSqliteTable rebuild db = .ok db') :
    ∃ old, db.tables rebuild.table = some old
      ∧ Changes rebuild.table { schema := rebuild.schema, rows := old.rows.map rebuild.copyRow }
        db db' := by
  unfold rebuildSqliteTable at h
  split at h
  · cases h
  · rename_i old hold
    refine ⟨old, hold, ?_⟩
    split at h
    · simp only [except_bind_eq_ok] at h
      obtain ⟨copied, hcopied, hindexes⟩ := h
      obtain rfl := foldlM_insert_ok hcopied
      obtain ⟨htables, hkeeps⟩ := createIndexes_keeps hrebuild.indexes hindexes
      dsimp only at htables
      have hself : rebuild.table ≠ temporaryName rebuild.table := fun hsame =>
        hrebuild.temporary (hsame ▸ hrebuild.table)
      refine {
        table := ?_
        others := fun t ht hne => ?_
        outside := fun t ht hnone => ?_
        indexes := .trans ⟨fun index hindex htable => ?_, fun index hindex => ?_⟩ hkeeps }
      · rw [htables, Function.update_self, List.nil_append]
      · have htemporary : t ≠ temporaryName rebuild.table := fun hsame =>
          hrebuild.temporary (hsame ▸ ht)
        rw [htables, Function.update_of_ne hne, Function.update_of_ne htemporary]
      · have hne : t ≠ rebuild.table := fun hsame => ht (hsame ▸ hrebuild.table)
        rw [htables, Function.update_of_ne hne]
        by_cases htemporary : t = temporaryName rebuild.table
        · rw [htemporary, Function.update_self]
        · rw [Function.update_of_ne htemporary, hnone]
      · refine List.mem_filter.mpr ⟨hindex, ?_⟩
        simp only [htable, Bool.and_eq_true, decide_eq_true_eq]
        exact ⟨hrebuild.apart.1.symm, hrebuild.apart.2.symm⟩
      · exact .inl (List.mem_filter.mp hindex).1
    · cases h

theorem recordStep_ok (h : recordStep now id db = .ok db') :
    ∃ table, db.tables "schema_migrations" = some table
      ∧ db' = db.put "schema_migrations" { table with
          rows := table.rows
            ++ [table.schema.newRow [("id", .text id), ("applied_at", .text now)]] } := by
  unfold recordStep at h
  split at h
  · cases h
  · rename_i table htable
    rw [except_bind_eq_ok] at h
    obtain ⟨table', htable', h⟩ := h
    obtain rfl := Table.insert_ok htable'
    exact ⟨table, htable, (Except.ok.inj h).symm⟩

/-- A row of the single enterprise goes to `default`. -/
def toDefault (row : Row) : Row :=
  if row "enterprise_id" = .null then
    Function.update row "enterprise_id" (.text defaultEnterpriseId)
  else row

theorem moveToDefault_ok (hrebuild : Rebuilds rebuild) (h : moveToDefault rebuild db = .ok db') :
    ∃ old, db.tables rebuild.table = some old
      ∧ Changes rebuild.table
        { schema := rebuild.schema, rows := old.rows.map fun row => rebuild.copyRow (toDefault row) }
        db db' := by
  simp only [moveToDefault, backfillEnterpriseColumn, except_bind_eq_ok] at h
  obtain ⟨filled, ⟨added, hadded, hfilled⟩, hrebuilt⟩ := h
  obtain ⟨table, htable, rfl⟩ := alter_ok hfilled
  obtain ⟨old, hold, hchanges⟩ := rebuildSqliteTable_ok hrebuild hrebuilt
  rw [Db.put_tables_self] at hold
  obtain rfl := Option.some.inj hold
  have hrows : ∀ row : Row, (if decide (row "enterprise_id" = .null) = true then
      [("enterprise_id", Value.text defaultEnterpriseId)].foldl
        (fun row cell => Function.update row cell.1 cell.2) row
      else row) = toDefault row := fun row => by simp only [decide_eq_true_eq]; rfl
  simp only [hrows, List.map_map] at hchanges
  have hmoved := (put_changes hrebuild.table).trans hchanges
  rcases addColumnIfMissing_ok hadded with ⟨-, rfl⟩ | ⟨-, before, hbefore, rfl⟩
  · exact ⟨table, htable, hmoved⟩
  · rw [Db.put_tables_self] at htable
    obtain rfl := Option.some.inj htable
    exact ⟨before, hbefore, (put_changes hrebuild.table).trans hmoved⟩

theorem usersRebuild_rebuilds : Rebuilds usersRebuild := by
  constructor <;> decide

theorem poolManagedUsersRebuild_rebuilds : Rebuilds poolManagedUsersRebuild := by
  constructor <;> decide

theorem runtimeSettingsRebuild_rebuilds : Rebuilds runtimeSettingsRebuild := by
  constructor <;> decide

theorem budgetCacheRebuild_rebuilds : Rebuilds budgetCacheRebuild := by
  constructor <;> decide

theorem importPlansRebuild_rebuilds : Rebuilds importPlansRebuild := by
  constructor <;> decide

theorem applyStep_ok {step : SqliteMigrationStep} (h : applyStep ssoTables now step db = .ok db') :
    (isApplied db step.id = true ∧ db' = db)
      ∨ (isApplied db step.id = false ∧ ∃ mid, step.up db = .ok mid
        ∧ (step.disableForeignKeys = true → ssoTables.all mid.foreignKeysHold = true)
        ∧ recordStep now step.id mid = .ok db') := by
  unfold applyStep at h
  split at h
  · rename_i happlied
    exact .inl ⟨happlied, (Except.ok.inj h).symm⟩
  · rename_i hnew
    refine .inr ⟨Bool.eq_false_iff.mpr hnew, ?_⟩
    rw [except_bind_eq_ok] at h
    obtain ⟨mid, hmid, h⟩ := h
    refine ⟨mid, hmid, ?_⟩
    split at h
    · rw [except_bind_eq_ok] at h
      obtain ⟨_, hholds, h⟩ := h
      unfold assertNoForeignKeyViolations at hholds
      split at hholds
      · rename_i hall
        exact ⟨fun _ => hall, h⟩
      · cases hholds
    · rename_i hdisabled
      exact ⟨fun hyes => absurd hyes hdisabled, h⟩

end Changes

/-! ## Progress -/

/-- The tables that a start writes rows to have the schema of before or of after the upgrade. -/
structure Shaped (db : Db) : Prop where
  settings : ∀ table, db.tables "sso_runtime_settings" = some table →
    table.schema = Baseline.runtimeSettings ∨ table.schema = createRuntimeSettings
  enterprises : ∀ table, db.tables "sso_enterprises" = some table →
    table.schema = createSsoEnterprises
  indexes : ∀ index ∈ db.indexes, index.name = Baseline.importPlanRowsStatus.name →
    index = Baseline.importPlanRowsStatus

/-- The settings have their row with `id = 1`, or no such row any more. -/
def seededTable (table : Table) : Prop :=
  table.schema.hasColumn "id" = false ∨ ∃ row ∈ table.rows, row "id" = .integer 1

def Seeded (db : Db) : Prop :=
  ∃ table, db.tables "sso_runtime_settings" = some table ∧ seededTable table

/-- What a statement has found or made stays. -/
structure Progress (db db' : Db) : Prop where
  tables : ∀ t ∈ ssoTables, (db.tables t).isSome = true → (db'.tables t).isSome = true
  columns : ∀ added ∈ addedColumns, db.hasColumn added.1 added.2 = true →
    db'.hasColumn added.1 added.2 = true
  password : db.hasColumn "sso_emu_import_plan_rows" "password_for_login" = false →
    db'.hasColumn "sso_emu_import_plan_rows" "password_for_login" = false
  applied : ∀ id, isApplied db id = true → isApplied db' id = true
  indexes : KeepsIndexes db.indexes db'.indexes
  seeded : Seeded db → Seeded db'
  shaped : Shaped db → Shaped db'

section Progress

variable {db db' db'' : Db} {name other type now id : String} {table : Table} {schema : Schema}
variable {values : List (String × Value)} {set : List (String × Value)} {index : Index}

theorem Progress.refl : Progress db db :=
  ⟨fun _ _ h => h, fun _ _ h => h, id, fun _ h => h, .refl, id, id⟩

theorem Progress.trans (h : Progress db db') (h' : Progress db' db'') : Progress db db'' where
  tables t ht hsome := h'.tables t ht (h.tables t ht hsome)
  columns c hc hhas := h'.columns c hc (h.columns c hc hhas)
  password hlacks := h'.password (h.password hlacks)
  applied id happlied := h'.applied id (h.applied id happlied)
  indexes := h.indexes.trans h'.indexes
  seeded hseeded := h'.seeded (h.seeded hseeded)
  shaped hshaped := h'.shaped (h.shaped hshaped)

theorem Shaped.of_indexes (h : KeepsIndexes db.indexes db'.indexes) (hs : Shaped db) :
    ∀ index ∈ db'.indexes, index.name = Baseline.importPlanRowsStatus.name →
      index = Baseline.importPlanRowsStatus := by
  intro index hindex hname
  rcases h.named index hindex with hold | rfl | hother
  · exact hs.indexes index hold hname
  · rfl
  · exact absurd hname hother

/-- The new state of a table has what statements look for in it. -/
structure Succeeds (name : String) (db : Db) (table : Table) : Prop where
  columns : ∀ added ∈ addedColumns, added.1 = name → db.hasColumn name added.2 = true →
    table.schema.hasColumn added.2 = true
  password : name = "sso_emu_import_plan_rows" →
    db.hasColumn "sso_emu_import_plan_rows" "password_for_login" = false →
    table.schema.hasColumn "password_for_login" = false
  applied : name = "schema_migrations" → ∀ id, isApplied db id = true →
    (table.rows.any fun row => row "id" = .text id) = true
  seeded : name = "sso_runtime_settings" → Seeded db → seededTable table
  settings : name = "sso_runtime_settings" → Shaped db →
    table.schema = Baseline.runtimeSettings ∨ table.schema = createRuntimeSettings
  enterprises : name = "sso_enterprises" → Shaped db → table.schema = createSsoEnterprises

theorem Changes.progress (h : Changes name table db db')
    (hsucceeds : Succeeds name db table) : Progress db db' := by
  have hcolumn : ∀ t ∈ ssoTables, t ≠ name → ∀ c, db'.hasColumn t c = db.hasColumn t c := by
    intro t ht hne c
    rw [Db.hasColumn, h.others t ht hne, ← Db.hasColumn]
  have hself : ∀ c, db'.hasColumn name c = table.schema.hasColumn c :=
    fun c => Db.hasColumn_eq h.table
  refine {
    tables := fun t ht hsome => ?_
    columns := fun added hadded hhas => ?_
    password := fun hlacks => ?_
    applied := fun id happlied => ?_
    indexes := h.indexes
    seeded := fun hseeded => ?_
    shaped := fun hshaped => ⟨fun t ht => ?_, fun t ht => ?_, hshaped.of_indexes h.indexes⟩ }
  · by_cases hne : t = name
    · rw [hne, h.table]
      rfl
    · rw [h.others t ht hne]
      exact hsome
  · have hmem : ∀ added ∈ addedColumns, added.1 ∈ ssoTables := by decide
    by_cases hne : added.1 = name
    · rw [hne, hself]
      exact hsucceeds.columns added hadded hne (hne ▸ hhas)
    · rw [hcolumn _ (hmem added hadded) hne]
      exact hhas
  · by_cases hne : "sso_emu_import_plan_rows" = name
    · rw [hne, hself]
      exact hsucceeds.password hne.symm hlacks
    · rw [hcolumn _ (by decide) hne]
      exact hlacks
  · by_cases hne : "schema_migrations" = name
    · rw [isApplied, Db.rows_eq (hne ▸ h.table)]
      exact hsucceeds.applied hne.symm id happlied
    · rw [isApplied, Db.rows, h.others _ (by decide) hne]
      exact happlied
  · by_cases hne : "sso_runtime_settings" = name
    · exact ⟨table, hne ▸ h.table, hsucceeds.seeded hne.symm hseeded⟩
    · obtain ⟨t, ht, hseeded⟩ := hseeded
      exact ⟨t, (h.others _ (by decide) hne).trans ht, hseeded⟩
  · by_cases hne : "sso_runtime_settings" = name
    · obtain rfl := Option.some.inj ((hne ▸ h.table).symm.trans ht)
      exact hsucceeds.settings hne.symm hshaped
    · exact hshaped.settings t ((h.others _ (by decide) hne).symm.trans ht)
  · by_cases hne : "sso_enterprises" = name
    · obtain rfl := Option.some.inj ((hne ▸ h.table).symm.trans ht)
      exact hsucceeds.enterprises hne.symm hshaped
    · exact hshaped.enterprises t ((h.others _ (by decide) hne).symm.trans ht)

/-- A table that keeps its schema and loses no key has all of it. -/
theorem succeeds_of_rows {rows : List Row} (htable : db.tables name = some table)
    (hids : ∀ row ∈ table.rows, ∃ row' ∈ rows, row' "id" = row "id") :
    Succeeds name db { table with rows } where
  columns added _ _ hhas := by
    rw [Db.hasColumn_eq htable] at hhas
    exact hhas
  password hname hlacks := by
    rw [Db.hasColumn_eq (hname ▸ htable)] at hlacks
    exact hlacks
  applied hname id happlied := by
    rw [isApplied, Db.rows_eq (hname ▸ htable), List.any_eq_true] at happlied
    obtain ⟨row, hrow, hid⟩ := happlied
    obtain ⟨row', hrow', hsame⟩ := hids row hrow
    rw [List.any_eq_true]
    exact ⟨row', hrow', hsame ▸ hid⟩
  seeded hname := by
    rintro ⟨t, ht, hseeded⟩
    obtain rfl := Option.some.inj ((hname ▸ htable).symm.trans ht)
    rcases hseeded with hlacks | ⟨row, hrow, hid⟩
    · exact .inl hlacks
    · obtain ⟨row', hrow', hsame⟩ := hids row hrow
      exact .inr ⟨row', hrow', hsame.trans hid⟩
  settings hname hshaped := hshaped.settings table (hname ▸ htable)
  enterprises hname hshaped := hshaped.enterprises table (hname ▸ htable)

/-- The schema of a table that a statement creates if it is not there. -/
structure Creates (name : String) (schema : Schema) : Prop where
  mem : name ∈ ssoTables
  password : name = "sso_emu_import_plan_rows" → schema.hasColumn "password_for_login" = false
  settings : name = "sso_runtime_settings" → schema = Baseline.runtimeSettings
  enterprises : name = "sso_enterprises" → schema = createSsoEnterprises

theorem createTable_progress (hcreates : Creates name schema)
    (h : createTable name schema db = .ok db') : Progress db db' := by
  rcases createTable_ok h with ⟨-, rfl⟩ | ⟨hnone, rfl⟩
  · exact .refl
  · refine (put_changes hcreates.mem).progress {
      columns := fun added _ _ hhas => ?_
      password := fun hname _ => hcreates.password hname
      applied := fun hname id happlied => ?_
      seeded := fun hname hseeded => ?_
      settings := fun hname _ => .inl (hcreates.settings hname)
      enterprises := fun hname _ => hcreates.enterprises hname }
    · simp [Db.hasColumn, hnone] at hhas
    · simp [isApplied, Db.rows, ← hname, hnone] at happlied
    · obtain ⟨t, ht, -⟩ := hseeded
      rw [← hname, hnone] at ht
      cases ht

theorem createIndex_progress
    (hname : index = Baseline.importPlanRowsStatus ∨ index.name ≠ Baseline.importPlanRowsStatus.name)
    (h : createIndex index db = .ok db') : Progress db db' := by
  obtain ⟨htables, hkeeps⟩ := createIndex_keeps hname h
  have hcolumn : ∀ t c, db'.hasColumn t c = db.hasColumn t c := by
    intro t c
    rw [Db.hasColumn, htables, ← Db.hasColumn]
  refine {
    tables := fun t _ hsome => by rw [htables]; exact hsome
    columns := fun added _ hhas => by rw [hcolumn]; exact hhas
    password := fun hlacks => by rw [hcolumn]; exact hlacks
    applied := fun id happlied => by rw [isApplied, Db.rows, htables]; exact happlied
    indexes := hkeeps
    seeded := fun hseeded => by rw [Seeded, htables]; exact hseeded
    shaped := fun hshaped => ⟨?_, ?_, hshaped.of_indexes hkeeps⟩ }
  · rw [htables]
    exact hshaped.settings
  · rw [htables]
    exact hshaped.enterprises

theorem addColumnIfMissing_progress (hmem : name ∈ ssoTables)
    (hname : name ≠ "sso_runtime_settings" ∧ name ≠ "sso_enterprises")
    (hother : other ≠ "password_for_login") (h : addColumnIfMissing name other type db = .ok db') :
    Progress db db' := by
  rcases addColumnIfMissing_ok h with ⟨-, rfl⟩ | ⟨-, table, htable, rfl⟩
  · exact .refl
  · refine (put_changes hmem).progress {
      columns := fun added _ _ hhas => ?_
      password := fun hrows hlacks => ?_
      applied := fun hrecords id happlied => ?_
      seeded := fun hsettings => absurd hsettings hname.1
      settings := fun hsettings => absurd hsettings hname.1
      enterprises := fun henterprises => absurd henterprises hname.2 }
    · rw [Db.hasColumn_eq htable, Schema.hasColumn] at hhas
      simp only [Schema.hasColumn, List.any_append, hhas, Bool.true_or]
    · rw [Db.hasColumn_eq (hrows ▸ htable), Schema.hasColumn] at hlacks
      simp [Schema.hasColumn, List.any_append, hlacks, column, hother]
    · rw [isApplied, Db.rows_eq (hrecords ▸ htable)] at happlied
      exact happlied

theorem insertOrIgnore_progress (hmem : name ∈ ssoTables)
    (h : insertOrIgnore name values db = .ok db') : Progress db db' := by
  obtain ⟨table, htable, -, ⟨-, rfl⟩ | rfl⟩ := insertOrIgnore_ok h
  · exact .refl
  · exact (put_changes hmem).progress
      (succeeds_of_rows htable fun row hrow => ⟨row, List.mem_append_left _ hrow, rfl⟩)

theorem foldl_update_ne {set : List (String × Value)} {row : Row} {c : String}
    (h : ∀ assigned ∈ set, assigned.1 ≠ c) :
    set.foldl (fun row (assigned : String × Value) => Function.update row assigned.1 assigned.2) row c
      = row c := by
  induction set generalizing row with
  | nil => rfl
  | cons assigned set ih =>
      rw [List.forall_mem_cons] at h
      rw [List.foldl_cons, ih h.2, Function.update_of_ne h.1.symm]

theorem update_progress {where_ : Row → Bool} (hmem : name ∈ ssoTables)
    (hset : ∀ assigned ∈ set, assigned.1 ≠ "id")
    (h : Sqlite.update name set where_ db = .ok db') : Progress db db' := by
  obtain ⟨table, htable, rfl⟩ := alter_ok h
  refine (put_changes hmem).progress (succeeds_of_rows htable fun row hrow => ?_)
  refine ⟨_, List.mem_map_of_mem hrow, ?_⟩
  split
  · exact foldl_update_ne hset
  · rfl

theorem dropLegacyPasswordColumn_progress (h : dropLegacyPasswordColumn db = .ok db') :
    Progress db db' := by
  unfold dropLegacyPasswordColumn at h
  split at h
  · obtain ⟨table, htable, rfl⟩ := alter_ok h
    refine (put_changes (by decide)).progress {
      columns := fun added hadded _ hhas => ?_
      password := fun _ _ => ?_
      applied := fun hname => absurd hname (by decide)
      seeded := fun hname => absurd hname (by decide)
      settings := fun hname => absurd hname (by decide)
      enterprises := fun hname => absurd hname (by decide) }
    · have hother : ∀ added ∈ addedColumns, added.2 ≠ "password_for_login" := by decide
      rw [Db.hasColumn_eq htable, Schema.hasColumn, List.any_eq_true] at hhas
      obtain ⟨c, hc, hcname⟩ := hhas
      rw [Schema.hasColumn, List.any_eq_true]
      refine ⟨c, List.mem_filter.mpr ⟨hc, ?_⟩, hcname⟩
      rw [decide_eq_true_eq] at hcname ⊢
      rw [hcname]
      exact hother added hadded
    · simp [Schema.hasColumn]
  · obtain rfl := Except.ok.inj h
    exact .refl

theorem moveToDefault_progress {rebuild : SqliteTableRebuild} (hrebuild : Rebuilds rebuild)
    (h : moveToDefault rebuild db = .ok db') : Progress db db' := by
  obtain ⟨old, hold, hchanges⟩ := moveToDefault_ok hrebuild h
  exact hchanges.progress {
    columns := fun added hadded hname _ => hrebuild.columns added hadded hname
    password := fun hname => absurd hname hrebuild.apart.1
    applied := fun hname => absurd hname hrebuild.records
    seeded := fun hname _ => .inl (by
      rw [hrebuild.settings hname]
      show createRuntimeSettings.hasColumn "id" = false
      decide)
    settings := fun hname _ => .inr (hrebuild.settings hname)
    enterprises := fun hname => absurd hname hrebuild.enterprises }

theorem recordStep_progress (h : recordStep now id db = .ok db') : Progress db db' := by
  obtain ⟨table, htable, rfl⟩ := recordStep_ok h
  exact (put_changes (by decide)).progress
    (succeeds_of_rows htable fun row hrow => ⟨row, List.mem_append_left _ hrow, rfl⟩)

theorem recordStep_applied (h : recordStep now id db = .ok db') : isApplied db' id = true := by
  obtain ⟨table, htable, rfl⟩ := recordStep_ok h
  rw [isApplied, Db.rows_eq Db.put_tables_self, List.any_eq_true]
  exact ⟨_, List.mem_append_right _ (List.mem_singleton_self _), by simp [Schema.newRow]⟩

theorem applyStep_progress {step : SqliteMigrationStep}
    (hstep : ∀ {db db'}, step.up db = .ok db' → Progress db db')
    (h : applyStep ssoTables now step db = .ok db') : Progress db db' := by
  rcases applyStep_ok h with ⟨-, rfl⟩ | ⟨-, mid, hmid, -, hrecord⟩
  · exact .refl
  · exact (hstep hmid).trans (recordStep_progress hrecord)

variable {seed : SsoEnterpriseSeed} {seeds : List SsoEnterpriseSeed}

theorem enterpriseSteps_progress {step : SqliteMigrationStep}
    (hstep : step ∈ enterpriseSteps now seed) (h : step.up db = .ok db') : Progress db db' := by
  simp only [enterpriseSteps, List.mem_cons, List.not_mem_nil, or_false] at hstep
  rcases hstep with rfl | rfl | rfl | rfl | rfl
  · simp only [createEnterprises, except_bind_eq_ok] at h
    obtain ⟨mid, hcreate, hinsert⟩ := h
    refine (createTable_progress ?_ hcreate).trans (insertOrIgnore_progress (by decide) hinsert)
    constructor <;> decide
  · simp only [migrateUsers, except_bind_eq_ok] at h
    obtain ⟨mid, husers, hmarkers⟩ := h
    exact (moveToDefault_progress usersRebuild_rebuilds husers).trans
      (moveToDefault_progress poolManagedUsersRebuild_rebuilds hmarkers)
  · exact moveToDefault_progress runtimeSettingsRebuild_rebuilds h
  · exact moveToDefault_progress budgetCacheRebuild_rebuilds h
  · exact moveToDefault_progress importPlansRebuild_rebuilds h

theorem verifyEnterpriseIdentity_progress (h : verifyEnterpriseIdentity seed db = .ok db') :
    Progress db db' := by
  unfold verifyEnterpriseIdentity at h
  split at h
  · cases h
  · split at h
    · obtain rfl := Except.ok.inj h
      exact .refl
    · split at h
      · cases h
      · exact update_progress (by decide) (by simp) h

theorem syncEnterprise_progress (h : syncEnterprise now db seed = .ok db') : Progress db db' := by
  simp only [syncEnterprise, except_bind_eq_ok] at h
  obtain ⟨inserted, hinsert, verified, hverify, hsettings⟩ := h
  exact (insertOrIgnore_progress (by decide) hinsert).trans
    ((verifyEnterpriseIdentity_progress hverify).trans
      (insertOrIgnore_progress (by decide) hsettings))

theorem syncEnterprises_progress (h : syncEnterprises now seeds db = .ok db') : Progress db db' := by
  simp only [syncEnterprises, except_bind_eq_ok] at h
  obtain ⟨synced, hsynced, h⟩ := h
  have hprogress : ∀ {seeds : List SsoEnterpriseSeed} {db : Db},
      seeds.foldlM (syncEnterprise now) db = .ok synced → Progress db synced := by
    intro seeds
    induction seeds with
    | nil =>
        intro db hdb
        obtain rfl := Except.ok.inj hdb
        exact .refl
    | cons seed seeds ih =>
        intro db hdb
        rw [List.foldlM_cons, except_bind_eq_ok] at hdb
        obtain ⟨mid, hmid, hrest⟩ := hdb
        exact (syncEnterprise_progress hmid).trans (ih hrest)
  simp only [assertNoRemovedEnterpriseWithUsers] at h
  split at h
  · obtain rfl := Except.ok.inj h
    exact hprogress hsynced
  · cases h

end Progress

end GhcpConsole.Sso
