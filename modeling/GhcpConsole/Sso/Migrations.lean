import GhcpConsole.Lib.Redo
import GhcpConsole.Sso.SqliteService
import Mathlib.Data.List.Sort

/-!
# SSO migrations

`migrations.ts` and the enterprise rows of `enterpriseRepo.ts`: the statements a start of the SSO
service runs on its database, in order. Each commits on its own; what the program keeps between two
statements is whether it has just added the column with the seats' pending cancellation dates.
-/

namespace GhcpConsole.Sso

open Sql Sqlite

def defaultEnterpriseId : String := "default"

structure SsoEnterpriseSeed where
  id : String
  fingerprint : String
  userPrefix : String
  emailDomain : String
deriving DecidableEq, Repr

/-- The enterprises of the registry, which has every id once. -/
structure Registry where
  enterprises : List SsoEnterpriseSeed
  nodup : (enterprises.map (·.id)).Nodup

namespace EnterpriseMigrationIds

def createEnterprises : String := "enterprise-v1/01-create-sso-enterprises"
def users : String := "enterprise-v1/02-users-enterprise"
def runtimeSettings : String := "enterprise-v1/03-runtime-settings-enterprise"
def budgetCache : String := "enterprise-v1/04-budget-cache-enterprise"
def importPlans : String := "enterprise-v1/05-emu-import-plans-enterprise"

end EnterpriseMigrationIds

def ssoTables : List String :=
  ["sso_users", "sso_pool_managed_users", "sso_runtime_settings", "sso_budget_cache",
    "sso_emu_import_plans", "sso_emu_import_plan_rows", "sso_enterprises", "schema_migrations"]

def userColumns : List String :=
  ["enterprise_id", "sso_user", "password_hash", "salt", "email", "role", "gh_login", "gh_scim_id",
    "emu_status", "copilot_seat_status", "copilot_seat_pending_cancellation_date",
    "copilot_seat_last_operation", "copilot_seat_last_error", "copilot_seat_updated_at",
    "created_at", "updated_at"]

def runtimeSettingsColumns : List String :=
  ["enterprise_id", "max_sso_users", "user_prefix", "email_domain", "bulk_sync_concurrency",
    "scim_request_delay_ms", "scim_max_retries", "scim_retry_base_delay_ms", "version",
    "updated_at"]

def budgetCacheColumns : List String :=
  ["enterprise_id", "period_key", "year", "month", "quantity", "unit_type", "raw_json",
    "fetched_at"]

def importPlanColumns : List String :=
  ["enterprise_id", "id", "sso_user", "status", "created_at", "updated_at", "applied_at"]

/-! ## Schemas -/

/-- The columns of a user after the name, before and after the upgrade. -/
def userFields : List Column :=
  [required "password_hash" "TEXT", required "salt" "TEXT", required "email" "TEXT",
    defaulted "role" "TEXT" (.text "user"), column "gh_login" "TEXT", column "gh_scim_id" "TEXT",
    defaulted "emu_status" "TEXT" (.text "not_synced"),
    defaulted "copilot_seat_status" "TEXT" (.text "unknown"),
    column "copilot_seat_pending_cancellation_date" "TEXT",
    column "copilot_seat_last_operation" "TEXT", column "copilot_seat_last_error" "TEXT",
    column "copilot_seat_updated_at" "TEXT", required "created_at" "TEXT",
    required "updated_at" "TEXT"]

def runtimeSettingsFields : List Column :=
  [column "max_sso_users" "INTEGER", required "user_prefix" "TEXT", required "email_domain" "TEXT",
    required "bulk_sync_concurrency" "INTEGER", required "scim_request_delay_ms" "INTEGER",
    required "scim_max_retries" "INTEGER", required "scim_retry_base_delay_ms" "INTEGER",
    required "version" "INTEGER", required "updated_at" "TEXT"]

def budgetCacheFields : List Column :=
  [required "year" "INTEGER", required "month" "INTEGER", defaulted "quantity" "REAL" (.integer 0),
    column "unit_type" "TEXT", required "raw_json" "TEXT", required "fetched_at" "TEXT"]

def importPlanFields : List Column :=
  [column "sso_user" "TEXT", required "status" "TEXT", required "created_at" "TEXT",
    required "updated_at" "TEXT", column "applied_at" "TEXT"]

namespace Baseline

def users : Schema where
  columns := column "sso_user" "TEXT" :: userFields
  primaryKey := ["sso_user"]
  foreignKeys := []
  checks := []

def poolManagedUsers : Schema where
  columns := [column "sso_user" "TEXT"]
  primaryKey := ["sso_user"]
  foreignKeys := [{
    columns := ["sso_user"], parent := "sso_users", parentColumns := ["sso_user"]
    onDelete := .restrict }]
  checks := []

def runtimeSettings : Schema where
  columns := column "id" "INTEGER" :: runtimeSettingsFields
  primaryKey := ["id"]
  foreignKeys := []
  checks := [("id", .integer 1)]

def budgetCache : Schema where
  columns := column "period_key" "TEXT" :: budgetCacheFields
  primaryKey := ["period_key"]
  foreignKeys := []
  checks := []

def importPlans : Schema where
  columns := column "id" "TEXT" :: importPlanFields
  primaryKey := ["id"]
  foreignKeys := []
  checks := []

def importPlanRows : Schema where
  columns :=
    [required "plan_id" "TEXT", required "row_index" "INTEGER", required "sso_user" "TEXT",
      column "email" "TEXT", column "gh_login" "TEXT", column "gh_scim_id" "TEXT",
      column "emu_status" "TEXT", column "copilot_seat_status" "TEXT",
      column "copilot_seat_pending_cancellation_date" "TEXT", required "status" "TEXT",
      required "detail" "TEXT", column "action" "TEXT", required "created_at" "TEXT",
      required "updated_at" "TEXT"]
  primaryKey := ["plan_id", "row_index"]
  foreignKeys := [{
    columns := ["plan_id"], parent := "sso_emu_import_plans", parentColumns := ["id"]
    onDelete := .cascade }]
  checks := []

def importPlanRowsStatus : Index where
  name := "idx_sso_emu_import_plan_rows_status"
  table := "sso_emu_import_plan_rows"
  columns := ["plan_id", "status", "row_index"]

end Baseline

/-- `REFERENCES sso_enterprises(id)`. -/
def ofEnterprise : ForeignKey where
  columns := ["enterprise_id"]
  parent := "sso_enterprises"
  parentColumns := ["id"]
  onDelete := .noAction

def createSsoEnterprises : Schema where
  columns := [required "id" "TEXT", required "profile_fingerprint" "TEXT", required "created_at" "TEXT"]
  primaryKey := ["id"]
  foreignKeys := []
  checks := []

def createUsers : Schema where
  columns := required "enterprise_id" "TEXT" :: required "sso_user" "TEXT" :: userFields
  primaryKey := ["enterprise_id", "sso_user"]
  foreignKeys := [ofEnterprise]
  checks := []

def createPoolManagedUsers : Schema where
  columns := [required "enterprise_id" "TEXT", required "sso_user" "TEXT"]
  primaryKey := ["enterprise_id", "sso_user"]
  foreignKeys := [{
    columns := ["enterprise_id", "sso_user"], parent := "sso_users"
    parentColumns := ["enterprise_id", "sso_user"], onDelete := .restrict }]
  checks := []

def createRuntimeSettings : Schema where
  columns := required "enterprise_id" "TEXT" :: runtimeSettingsFields
  primaryKey := ["enterprise_id"]
  foreignKeys := [ofEnterprise]
  checks := []

def createBudgetCache : Schema where
  columns := required "enterprise_id" "TEXT" :: required "period_key" "TEXT" :: budgetCacheFields
  primaryKey := ["enterprise_id", "period_key"]
  foreignKeys := [ofEnterprise]
  checks := []

def createImportPlans : Schema where
  columns := required "enterprise_id" "TEXT" :: required "id" "TEXT" :: importPlanFields
  primaryKey := ["id"]
  foreignKeys := [ofEnterprise]
  checks := []

/-! ## Enterprise rows -/

section Enterprises

variable (now : String)

def insertEnterpriseIfMissing (seed : SsoEnterpriseSeed) : Db → Except String Db :=
  insertOrIgnore "sso_enterprises"
    [("id", .text seed.id), ("profile_fingerprint", .text seed.fingerprint), ("created_at", .text now)]

def hasUsers (db : Db) (id : String) : Bool :=
  (db.rows "sso_users").any fun row => row "enterprise_id" = .text id

def enterpriseRow (db : Db) (id : String) : Option Row :=
  (db.rows "sso_enterprises").find? fun row => row "id" = .text id

/-- A fingerprint change is fatal only once the enterprise has users. -/
def verifyEnterpriseIdentity (seed : SsoEnterpriseSeed) (db : Db) : Except String Db :=
  match enterpriseRow db seed.id with
  | none => .error s!"Enterprise \"{seed.id}\" is missing from sso_enterprises."
  | some row =>
      if row "profile_fingerprint" = .text seed.fingerprint then .ok db
      else if hasUsers db seed.id then
        .error (s!"enterprise_identity_changed: enterprise \"{seed.id}\" already has SSO users, "
          ++ "but its GitHub base URL, slug or shortcode changed. Restore the previous values.")
      else
        update "sso_enterprises" [("profile_fingerprint", .text seed.fingerprint)]
          (fun row => row "id" = .text seed.id) db

/-- The values that seed a settings row, after its key. -/
def settingsValues (seed : SsoEnterpriseSeed) : List (String × Value) :=
  [("max_sso_users", .null), ("user_prefix", .text seed.userPrefix),
    ("email_domain", .text seed.emailDomain), ("bulk_sync_concurrency", .integer 3),
    ("scim_request_delay_ms", .integer 250), ("scim_max_retries", .integer 3),
    ("scim_retry_base_delay_ms", .integer 1000), ("version", .integer 1), ("updated_at", .text now)]

def insertRuntimeSettingsIfMissing (seed : SsoEnterpriseSeed) : Db → Except String Db :=
  insertOrIgnore "sso_runtime_settings" (("enterprise_id", .text seed.id) :: settingsValues now seed)

/-- The ids of the enterprises, in their order. -/
def enterpriseIds (db : Db) : List String :=
  ((db.rows "sso_enterprises").filterMap fun row =>
    match row "id" with
    | .text id => some id
    | _ => none).insertionSort (· ≤ ·)

def assertNoRemovedEnterpriseWithUsers (seeds : List SsoEnterpriseSeed) (db : Db) :
    Except String Db :=
  match (enterpriseIds db).find? fun id => !seeds.any (·.id = id) && hasUsers db id with
  | none => .ok db
  | some removed =>
      .error (s!"enterprise_missing_from_registry: enterprise \"{removed}\" has SSO users but is "
        ++ "missing from the enterprise registry. Restore its registry entry.")

def syncEnterprise (db : Db) (seed : SsoEnterpriseSeed) : Except String Db := do
  let db ← insertEnterpriseIfMissing now seed db
  let db ← verifyEnterpriseIdentity seed db
  insertRuntimeSettingsIfMissing now seed db

/-- One transaction. -/
def syncEnterprises (seeds : List SsoEnterpriseSeed) (db : Db) : Except String Db := do
  let db ← seeds.foldlM (syncEnterprise now) db
  assertNoRemovedEnterpriseWithUsers seeds db

end Enterprises

/-! ## Steps -/

section Steps

variable (now : String) (defaultSeed : SsoEnterpriseSeed)

def createEnterprises (db : Db) : Except String Db := do
  let db ← createTable "sso_enterprises" createSsoEnterprises db
  insertEnterpriseIfMissing now defaultSeed db

/-- Before the upgrade there was a single enterprise, so every existing row belongs to `default`. -/
def backfillEnterpriseColumn (table : String) (db : Db) : Except String Db := do
  let db ← addColumnIfMissing table "enterprise_id" "TEXT" db
  update table [("enterprise_id", .text defaultEnterpriseId)] (fun row => row "enterprise_id" = .null) db

def usersRebuild : SqliteTableRebuild where
  table := "sso_users"
  schema := createUsers
  copyColumns := userColumns
  indexes := [{
    name := "idx_sso_users_enterprise_gh_login", table := "sso_users"
    columns := ["enterprise_id", "gh_login"] }]

def poolManagedUsersRebuild : SqliteTableRebuild where
  table := "sso_pool_managed_users"
  schema := createPoolManagedUsers
  copyColumns := ["enterprise_id", "sso_user"]
  indexes := []

def runtimeSettingsRebuild : SqliteTableRebuild where
  table := "sso_runtime_settings"
  schema := createRuntimeSettings
  copyColumns := runtimeSettingsColumns
  indexes := []

def budgetCacheRebuild : SqliteTableRebuild where
  table := "sso_budget_cache"
  schema := createBudgetCache
  copyColumns := budgetCacheColumns
  indexes := []

def importPlansRebuild : SqliteTableRebuild where
  table := "sso_emu_import_plans"
  schema := createImportPlans
  copyColumns := importPlanColumns
  indexes := [{
    name := "idx_sso_emu_import_plans_enterprise", table := "sso_emu_import_plans"
    columns := ["enterprise_id", "created_at"] }]

/-- Every row goes to `default`, then the table is rebuilt; each of the steps 02 to 05 does this. -/
def moveToDefault (rebuild : SqliteTableRebuild) (db : Db) : Except String Db := do
  let db ← backfillEnterpriseColumn rebuild.table db
  rebuildSqliteTable rebuild db

def migrateUsers (db : Db) : Except String Db := do
  let db ← moveToDefault usersRebuild db
  moveToDefault poolManagedUsersRebuild db

def migrateRuntimeSettings : Db → Except String Db := moveToDefault runtimeSettingsRebuild

def migrateBudgetCache : Db → Except String Db := moveToDefault budgetCacheRebuild

def migrateImportPlans : Db → Except String Db := moveToDefault importPlansRebuild

def enterpriseSteps : List SqliteMigrationStep :=
  [{ id := EnterpriseMigrationIds.createEnterprises, up := createEnterprises now defaultSeed
     disableForeignKeys := false },
    { id := EnterpriseMigrationIds.users, up := migrateUsers, disableForeignKeys := true },
    { id := EnterpriseMigrationIds.runtimeSettings, up := migrateRuntimeSettings
      disableForeignKeys := true },
    { id := EnterpriseMigrationIds.budgetCache, up := migrateBudgetCache, disableForeignKeys := true },
    { id := EnterpriseMigrationIds.importPlans, up := migrateImportPlans, disableForeignKeys := true }]

/-- The check of `runSqliteMigrations` on its steps. -/
example : ((enterpriseSteps "" ⟨"", "", "", ""⟩).map (·.id)).Nodup := by decide

/-! ## The baseline -/

def baselineSchemaSql : List (Db → Except String Db) :=
  [createTable "sso_users" Baseline.users,
    createTable "sso_pool_managed_users" Baseline.poolManagedUsers,
    createTable "sso_runtime_settings" Baseline.runtimeSettings,
    createTable "sso_budget_cache" Baseline.budgetCache,
    createTable "sso_emu_import_plans" Baseline.importPlans,
    createTable "sso_emu_import_plan_rows" Baseline.importPlanRows,
    createIndex Baseline.importPlanRowsStatus]

/-- The row with `id = 1`; after step 03 the table is keyed by enterprise. -/
def seedBaselineRuntimeSettings (db : Db) : Except String Db :=
  if db.hasColumn "sso_runtime_settings" "id" then
    insertOrIgnore "sso_runtime_settings" (("id", .integer 1) :: settingsValues now defaultSeed) db
  else .ok db

def pendingStatuses : List Value := [.text "pending_create", .text "pending_update"]

def pending (row : Row) : Bool := pendingStatuses.contains (row "status")

def conflictDetail : String :=
  "Seat synchronization changed. Preview again before applying this import."

/-- The rows that were planned before there were seat snapshots are planned no more. -/
def refusePending : Db → Except String Db :=
  update "sso_emu_import_plan_rows" [("status", .text "conflict"), ("detail", .text conflictDetail)]
    pending

/-- The statement that drops the column; what follows it (`VACUUM` and a checkpoint) changes no row. -/
def dropLegacyPasswordColumn (db : Db) : Except String Db :=
  if db.hasColumn "sso_emu_import_plan_rows" "password_for_login" then
    dropColumn "sso_emu_import_plan_rows" "password_for_login" db
  else .ok db

/-! ## The run -/

/-- The database and whether the run has just added the pending cancellation dates. -/
abbrev Running : Type := Db × Bool

/-- A statement that does not look at what the run has added. -/
def plainly (statement : Db → Except String Db) : Running → Except String Running
  | (db, added) => (statement db).map fun db => (db, added)

def addPendingCancellationDate : Running → Except String Running
  | (db, _) =>
      (addColumnIfMissing "sso_emu_import_plan_rows" "copilot_seat_pending_cancellation_date" "TEXT"
        db).map fun db' =>
          (db', !db.hasColumn "sso_emu_import_plan_rows" "copilot_seat_pending_cancellation_date")

def refusePendingIfAdded : Running → Except String Running
  | (db, added) => if added then (refusePending db).map fun db => (db, added) else .ok (db, added)

/-- The statements before the pending cancellation dates. -/
def beforeDates : List (Db → Except String Db) :=
  baselineSchemaSql ++
    [seedBaselineRuntimeSettings now defaultSeed,
      addColumnIfMissing "sso_emu_import_plan_rows" "copilot_seat_status" "TEXT",
      addColumnIfMissing "sso_users" "copilot_seat_pending_cancellation_date" "TEXT"]

/-- The statements after them. -/
def afterDates (enterprises : List SsoEnterpriseSeed) : List (Db → Except String Db) :=
  dropLegacyPasswordColumn
    :: runSqliteMigrations ssoTables now (enterpriseSteps now defaultSeed)
    ++ [syncEnterprises now enterprises]

def statements (enterprises : List SsoEnterpriseSeed) : List (Running → Except String Running) :=
  (beforeDates now defaultSeed).map plainly
    ++ [addPendingCancellationDate, refusePendingIfAdded]
    ++ (afterDates now defaultSeed enterprises).map plainly

end Steps

section Run

variable (now : String) (registry : Registry)

/-- `runMigrations`, cut off after `crash` statements if that is given. -/
def runMigrations (crash : Option Nat) (db : Db) : Except String Unit × Db :=
  match registry.enterprises.find? (·.id = defaultEnterpriseId) with
  | none => (.error "SSO migrations need the default enterprise.", db)
  | some defaultSeed =>
      let statements := statements now defaultSeed registry.enterprises
      let (result, running) := perform (crash.elim statements statements.take) (db, false)
      (result, running.1)

/-- The database after a number of runs that were cut off. -/
def afterCrashes (crashes : List Nat) (db : Db) : Db :=
  crashes.foldl (fun db crash => (runMigrations now registry (some crash) db).2) db

end Run

end GhcpConsole.Sso
