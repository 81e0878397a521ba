import Mathlib.Data.List.DropRight
import GhcpConsole.Lib.Text

/-!
# SQLite to MySQL

The tool that copies a Proxy's SQLite database to MySQL (`migrate.ts`): the preflight of the source,
the checks of the target and the copy in one transaction. The MySQL server and the schema migrations
it runs first are given (`Server`); a table of the source is its columns and its rows in the order
they are read, and a column that a table does not have is null in its rows. Tables of the source can have
further columns, such as those that older schemas have left there.
-/

namespace GhcpConsole.Upgrade

def defaultEnterpriseId : String := "default"

/-! ## Rows -/

/-- A value of a column that is not null. -/
inductive SqliteValue
  | integer (value : Int)
  | real (bits : UInt64)
  | text (value : String)
  | blob (bytes : List UInt8)
deriving DecidableEq, Repr

structure SqliteAccountRow where
  identity : String
  ssoUser : String
  ghLogin : Option String
  copilotOauthToken : Option String
  copilotOauthStatus : String
  copilotOauthUpdatedAt : Option String
  copilotOauthAttemptId : Option String
  createdAt : String
  updatedAt : String
  enterpriseId : Option String
  /-- The further columns that are not null. -/
  further : List (String × SqliteValue)
deriving DecidableEq, Repr

structure SqliteStatRow where
  id : String
  identity : String
  ghLogin : Option String
  requestedAt : String
  path : String
  model : Option String
  success : Int
  failureReason : Option String
  inputTokens : Option Int
  outputTokens : Option Int
  cacheTokens : Option Int
  cacheInputTokens : Option Int
  cacheWriteTokens : Option Int
  callerId : Option String
  leaseId : Option String
  enterpriseId : Option String
  /-- The further columns that are not null. -/
  further : List (String × SqliteValue)
deriving DecidableEq, Repr

/-- A `proxy_enterprises` row, as both SQLite and MySQL store it. -/
structure EnterpriseRow where
  id : String
  state : String
  maxAccounts : Int
  inventoryCount : Int
  policyVersion : Int
  profileFingerprint : String
  createdAt : Int
  updatedAt : Int
deriving DecidableEq, Repr

structure SqliteTable (α : Type) where
  columns : List String
  rows : List α

def requiredAccountColumns : List String :=
  ["identity", "sso_user", "gh_login", "copilot_oauth_token", "copilot_oauth_status",
    "copilot_oauth_updated_at", "copilot_oauth_attempt_id", "created_at", "updated_at"]

def requiredStatColumns : List String :=
  ["id", "identity", "gh_login", "requested_at", "path", "model", "success", "failure_reason",
    "input_tokens", "output_tokens", "cache_tokens", "cache_input_tokens", "cache_write_tokens"]

def requiredEnterpriseColumns : List String :=
  ["id", "state", "max_accounts", "inventory_count", "policy_version", "profile_fingerprint",
    "created_at", "updated_at"]

/-- The columns that the rows name. -/
def accountColumns : List String := requiredAccountColumns ++ ["enterprise_id"]

def statColumns : List String := requiredStatColumns ++ ["caller_id", "lease_id", "enterprise_id"]

structure Source where
  accounts : Option (SqliteTable SqliteAccountRow)
  requestStats : Option (SqliteTable SqliteStatRow)
  enterprises : Option (SqliteTable EnterpriseRow)
  /-- The identities in `user_pool_accounts`, which the tool does not read. -/
  poolMembers : List String
  account_enterprise : ∀ table, accounts = some table → "enterprise_id" ∉ table.columns →
    ∀ row ∈ table.rows, row.enterpriseId = none
  stat_enterprise : ∀ table, requestStats = some table → "enterprise_id" ∉ table.columns →
    ∀ row ∈ table.rows, row.enterpriseId = none
  account_further : ∀ table, accounts = some table → ∀ row ∈ table.rows, ∀ entry ∈ row.further,
    entry.1 ∈ table.columns ∧ entry.1 ∉ accountColumns
  stat_further : ∀ table, requestStats = some table → ∀ row ∈ table.rows, ∀ entry ∈ row.further,
    entry.1 ∈ table.columns ∧ entry.1 ∉ statColumns

inductive SourceShape
  | singleEnterprise | multiEnterprise
deriving DecidableEq, Repr

def SourceShape.text : SourceShape → String
  | singleEnterprise => "single-enterprise"
  | multiEnterprise => "multi-enterprise"

structure SourceData where
  shape : SourceShape
  accounts : List SqliteAccountRow
  requestStats : List SqliteStatRow
  enterprise : Option EnterpriseRow

/-- `EnterpriseSeed`, less the id. -/
structure EnterpriseSeed where
  fingerprint : String
  maxAccounts : Nat
deriving DecidableEq, Repr

def migrateHint : String :=
  "Start the current Proxy once in SQLite mode to apply schema migrations before upgrading."

/-! ## Reading the source -/

/-- `PRAGMA table_info`: no columns for a table that does not exist. -/
def sqliteColumns {α : Type} (table : Option (SqliteTable α)) : List String :=
  table.elim [] (·.columns)

def requireSqliteColumns {α : Type} (name : String) (table : Option (SqliteTable α))
    (required : List String) : Except String Unit :=
  let names := sqliteColumns table
  let missing := required.filter fun column => !names.contains column
  if names = [] then .error s!"Source SQLite table \"{name}\" does not exist."
  else if missing ≠ [] then
    let listed := ", ".intercalate missing
    .error s!"Source SQLite table \"{name}\" is missing column(s): {listed}. {migrateHint}"
  else .ok ()

/-- Either the r4 schema or a completed multi-enterprise migration. -/
def sourceShape (source : Source) : Except String SourceShape :=
  let enterprises := sqliteColumns source.enterprises ≠ []
  let accounts := (sqliteColumns source.accounts).contains "enterprise_id"
  let stats := (sqliteColumns source.requestStats).contains "enterprise_id"
  if !enterprises && !accounts && !stats then .ok .singleEnterprise
  else if enterprises && accounts && stats then do
    requireSqliteColumns "proxy_enterprises" source.enterprises requiredEnterpriseColumns
    return .multiEnterprise
  else
    .error s!"Source SQLite has a partially applied multi-enterprise migration. {migrateHint}"

def SqliteAccountRow.assignDefault (row : SqliteAccountRow) : SqliteAccountRow :=
  { row with enterpriseId := some defaultEnterpriseId }

def SqliteStatRow.assignDefault (row : SqliteStatRow) : SqliteStatRow :=
  { row with enterpriseId := some defaultEnterpriseId }

def requireDefaultRows (enterpriseIds : List (Option String)) (table : String) :
    Except String Unit :=
  let foreign := (enterpriseIds.filter (· ≠ some defaultEnterpriseId)).length
  if foreign = 0 then .ok ()
  else
    .error (s!"Source SQLite table \"{table}\" has {foreign} row(s) outside the default enterprise; "
      ++ "this tool copies only single-enterprise (default) data.")

def identityMismatch (enterprise : EnterpriseRow) (seed : EnterpriseSeed) : String :=
  "The source default enterprise has a different identity (GitHub base URL, shortcode or pool account "
    ++ s!"domain) than this environment configures (source {enterprise.profileFingerprint}, "
    ++ s!"environment {seed.fingerprint}). Run the tool with the exact Proxy configuration."

def readSourceEnterprise (rows : List EnterpriseRow) (seed : EnterpriseSeed) :
    Except String EnterpriseRow :=
  match rows.find? (·.id = defaultEnterpriseId) with
  | none => .error s!"Source SQLite has no default enterprise. {migrateHint}"
  | some enterprise =>
      if rows.length ≠ 1 then
        .error (s!"Source SQLite has {rows.length - 1} enterprise(s) besides default; "
          ++ "this tool copies only single-enterprise (default) data.")
      else if enterprise.profileFingerprint ≠ seed.fingerprint then
        .error (identityMismatch enterprise seed)
      else if enterprise.inventoryCount ≠ 0 then
        .error (s!"Source default enterprise has {enterprise.inventoryCount} user-pool member(s); "
          ++ "migrate caller-lease pools with upgrade/user-pool-mysql instead.")
      else .ok enterprise

def readSource (source : Source) (seed : EnterpriseSeed) : Except String SourceData := do
  requireSqliteColumns "proxy_accounts" source.accounts requiredAccountColumns
  requireSqliteColumns "proxy_request_stats" source.requestStats requiredStatColumns
  let shape ← sourceShape source
  let accounts := source.accounts.elim [] (·.rows)
  let requestStats := source.requestStats.elim [] (·.rows)
  match shape with
  | .singleEnterprise =>
      return {
        shape, enterprise := none
        accounts := accounts.map (·.assignDefault), requestStats := requestStats.map (·.assignDefault) }
  | .multiEnterprise =>
      requireDefaultRows (accounts.map (·.enterpriseId)) "proxy_accounts"
      requireDefaultRows (requestStats.map (·.enterpriseId)) "proxy_request_stats"
      let enterprise ← readSourceEnterprise (source.enterprises.elim [] (·.rows)) seed
      return { shape, accounts, requestStats, enterprise := some enterprise }

/-! ## The target -/

structure MysqlAccountRow where
  identity : String
  ssoUser : String
  ghLogin : Option String
  copilotOauthToken : Option String
  copilotOauthStatus : String
  copilotOauthUpdatedAt : Option String
  copilotOauthAttemptId : Option String
  createdAt : String
  updatedAt : String
  enterpriseId : String
  further : List (String × SqliteValue)
deriving DecidableEq, Repr

structure MysqlStatRow where
  id : String
  identity : String
  ghLogin : Option String
  requestedAt : String
  path : String
  model : Option String
  success : Int
  failureReason : Option String
  inputTokens : Option Int
  outputTokens : Option Int
  cacheTokens : Option Int
  cacheInputTokens : Option Int
  cacheWriteTokens : Option Int
  callerId : Option String
  leaseId : Option String
  enterpriseId : String
  further : List (String × SqliteValue)
deriving DecidableEq, Repr

/-- A target database; `tables` says that the Proxy's tables exist. -/
structure Target where
  tables : Bool
  accounts : List MysqlAccountRow
  requestStats : List MysqlStatRow
  enterprises : List EnterpriseRow
  poolMembers : List String
  /-- The foreign key of `user_pool_accounts`. -/
  member_account : ∀ identity ∈ poolMembers, ∃ row ∈ accounts, row.identity = identity

/-- The form of the texts in a `DATETIME(3)` column read with `dateStrings`. -/
def datetimeForm : List (Option Char) :=
  [none, none, none, none, some '-', none, none, some '-', none, none]
    ++ some ' ' :: [none, none, some ':', none, none, some ':', none, none, some '.', none, none, none]

/-- The form of `Date.prototype.toISOString`. -/
def isoForm : List (Option Char) :=
  [none, none, none, none, some '-', none, none, some '-', none, none]
    ++ some 'T' :: [none, none, some ':', none, none, some ':', none, none, some '.', none, none, none]
    ++ [some 'Z']

/-- What the tool relies on in MySQL 8 and in `runMysqlMigrations`. -/
structure Server where
  version : String
  /-- `runMysqlMigrations(pool, seed)`, and the database it leaves. -/
  runMysqlMigrations : EnterpriseSeed → Target → Except String Unit × Target
  /-- What a `DATETIME(3)` column holds after a text was stored; none where it is refused. -/
  datetime : String → Option String
  /-- A stored value is read back in the column's form, and a text of that form as it was. -/
  datetime_form : ∀ text stored, datetime text = some stored → fits datetimeForm stored.toList = true
  datetime_keeps : ∀ text stored, datetime text = some stored →
    fits datetimeForm text.toList = true → stored = text
  /-- Lengths, ranges, keys and constraints. -/
  admitsAccount : Target → MysqlAccountRow → Bool
  admitsStat : Target → MysqlStatRow → Bool
  admitsEnterprise : EnterpriseRow → Bool

/-- What is read back from a `CHAR` column: without the spaces at the end. -/
def mysqlChar (text : String) : String := String.ofList (text.toList.rdropWhile (· = ' '))

/-- `value ? value.slice(0, 23).replace('T', ' ') : null`. -/
def mysqlTimestamp (value : Option String) : Option String :=
  match value with
  | none => none
  | some value =>
      if value = "" then none
      else some (String.ofList (replaceFirst 'T' ' ' (value.toList.take 23)))

section Copy

variable (server : Server)

def Server.storeDatetime (server : Server) : Option String → Except String (Option String)
  | none => .ok none
  | some text =>
      match server.datetime text with
      | some stored => .ok (some stored)
      | none => .error "Incorrect datetime value"

def notNull {α : Type} : Option α → Except String α
  | some value => .ok value
  | none => .error "Column cannot be null"

def insertAccount (target : Target) (row : SqliteAccountRow) : Except String Target := do
  let oauthUpdatedAt ← server.storeDatetime (mysqlTimestamp row.copilotOauthUpdatedAt)
  let createdAt ← server.storeDatetime (mysqlTimestamp (some row.createdAt))
  let updatedAt ← server.storeDatetime (mysqlTimestamp (some row.updatedAt))
  let createdAt ← notNull createdAt
  let updatedAt ← notNull updatedAt
  let enterpriseId ← notNull row.enterpriseId
  let stored : MysqlAccountRow := {
    identity := row.identity, ssoUser := row.ssoUser, ghLogin := row.ghLogin
    copilotOauthToken := row.copilotOauthToken, copilotOauthStatus := row.copilotOauthStatus
    copilotOauthUpdatedAt := oauthUpdatedAt
    copilotOauthAttemptId := row.copilotOauthAttemptId.map mysqlChar
    createdAt, updatedAt, enterpriseId
    -- The statement names no further column.
    further := [] }
  if server.admitsAccount target stored then
    return { target with
      accounts := target.accounts ++ [stored]
      member_account := fun identity hid =>
        let ⟨row, hrow, heq⟩ := target.member_account identity hid
        ⟨row, List.mem_append_left _ hrow, heq⟩ }
  else throw "Constraint violation"

def insertStat (target : Target) (row : SqliteStatRow) : Except String Target := do
  let requestedAt ← server.storeDatetime (mysqlTimestamp (some row.requestedAt))
  let requestedAt ← notNull requestedAt
  let enterpriseId ← notNull row.enterpriseId
  let stored : MysqlStatRow := {
    id := row.id, identity := row.identity, ghLogin := row.ghLogin, requestedAt, path := row.path
    model := row.model, success := row.success, failureReason := row.failureReason
    inputTokens := row.inputTokens, outputTokens := row.outputTokens
    cacheTokens := row.cacheTokens, cacheInputTokens := row.cacheInputTokens
    cacheWriteTokens := row.cacheWriteTokens
    enterpriseId
    -- The statement does not name these columns.
    callerId := none, leaseId := none, further := [] }
  if server.admitsStat target stored then
    return { target with requestStats := target.requestStats ++ [stored] }
  else throw "Constraint violation"

def copyBatchSize : Nat := 500

/-- `rows.slice(offset, offset + 500)` for each offset. -/
def batches {α : Type} (rows : List α) : List (List α) :=
  (List.range ((rows.length + (copyBatchSize - 1)) / copyBatchSize)).map fun i =>
    (rows.drop (copyBatchSize * i)).take copyBatchSize

def copyAccounts (target : Target) (rows : List SqliteAccountRow) : Except String Target :=
  (batches rows).foldlM (fun target batch => batch.foldlM (insertAccount server) target) target

def copyRequestStats (target : Target) (rows : List SqliteStatRow) : Except String Target :=
  (batches rows).foldlM (fun target batch => batch.foldlM (insertStat server) target) target

/-- Keeps the seeded identity and member count; copies the rest of the source row. -/
def copyEnterprise (target : Target) (enterprise : EnterpriseRow) : Except String Target := do
  let enterprises := target.enterprises.map fun row =>
    if row.id = defaultEnterpriseId then
      { row with
        state := enterprise.state, maxAccounts := enterprise.maxAccounts
        policyVersion := enterprise.policyVersion, createdAt := enterprise.createdAt
        updatedAt := enterprise.updatedAt }
    else row
  if enterprises.all server.admitsEnterprise then return { target with enterprises }
  else throw "Constraint violation"

end Copy

/-! ## Checks of the target -/

/-- `inspectTarget`: whether the tables are there, and what they hold. -/
structure TargetState where
  tablesExist : Bool
  accounts : Nat
  requestStats : Nat
  usedEnterprises : Nat
deriving DecidableEq, Repr

def inspectTarget (target : Target) : TargetState :=
  if target.tables then
    { tablesExist := true, accounts := target.accounts.length
      requestStats := target.requestStats.length
      usedEnterprises := (target.enterprises.filter fun row =>
        row.id ≠ defaultEnterpriseId || row.inventoryCount ≠ 0).length }
  else { tablesExist := false, accounts := 0, requestStats := 0, usedEnterprises := 0 }

def requireEmptyTarget (state : TargetState) : Except String Unit :=
  if state.accounts = 0 ∧ state.requestStats = 0 ∧ state.usedEnterprises = 0 then .ok ()
  else
    .error ("Refusing to migrate into a non-empty MySQL target "
      ++ s!"({state.accounts} account(s), {state.requestStats} request stat(s), "
      ++ s!"{state.usedEnterprises} enterprise(s) in use).")

def verifyTargetCounts (target : Target) (expectedAccounts expectedRequestStats : Nat) :
    Except String Unit :=
  let accounts := target.accounts.length
  let defaultAccounts := (target.accounts.filter (·.enterpriseId = defaultEnterpriseId)).length
  let stats := target.requestStats.length
  let defaultStats := (target.requestStats.filter (·.enterpriseId = defaultEnterpriseId)).length
  if accounts = expectedAccounts ∧ defaultAccounts = expectedAccounts
      ∧ stats = expectedRequestStats ∧ defaultStats = expectedRequestStats then .ok ()
  else
    .error (s!"Target verification failed: expected {expectedAccounts}/{expectedRequestStats} "
      ++ s!"account/stat rows in the default enterprise, found {defaultAccounts}/{defaultStats} "
      ++ s!"({accounts}/{stats} in total).")

def verifyTargetEnterprise (target : Target) (seed : EnterpriseSeed)
    (source : Option EnterpriseRow) : Except String Unit :=
  match target.enterprises with
  | [row] =>
      if row.id = defaultEnterpriseId ∧ row.profileFingerprint = seed.fingerprint
          ∧ row.inventoryCount = 0
          ∧ source.all (fun enterprise => row = { enterprise with inventoryCount := 0 }) then .ok ()
      else failed
  | _ => failed
where
  failed : Except String Unit :=
    .error "Target verification failed: proxy_enterprises does not hold the expected default."

/-! ## The tool -/

structure MigrationResult where
  accounts : Nat
  requestStats : Nat
  dryRun : Bool
deriving DecidableEq, Repr

section Migration

variable (server : Server)

def requireMysql8 : Except String Unit :=
  if "8.".toList.isPrefixOf server.version.toList then .ok ()
  else .error s!"MySQL 8.x is required; target reported version \"{server.version}\"."

/-- The transaction. -/
def copyAll (seed : EnterpriseSeed) (data : SourceData) (target : Target) :
    Except String Target := do
  let seeded : Except String Target :=
    match data.enterprise with
    | some enterprise => copyEnterprise server target enterprise
    | none => .ok target
  let target ← seeded
  let target ← copyAccounts server target data.accounts
  let target ← copyRequestStats server target data.requestStats
  verifyTargetCounts target data.accounts.length data.requestStats.length
  verifyTargetEnterprise target seed data.enterprise
  return target

/-- The result and what the target database is afterwards. -/
def migrateSqliteToMysql (source : Source) (deploymentSeed : Except String EnterpriseSeed)
    (dryRun : Bool) (target : Target) : Except String MigrationResult × Target :=
  let preflight : Except String (EnterpriseSeed × SourceData) := do
    let seed ← deploymentSeed
    let data ← readSource source seed
    requireMysql8 server
    return (seed, data)
  match preflight with
  | .error e => (.error e, target)
  | .ok (seed, data) =>
      if dryRun then
        (.ok { accounts := data.accounts.length, requestStats := data.requestStats.length
               dryRun := true }, target)
      else
        match server.runMysqlMigrations seed target with
        | (.error e, target) => (.error e, target)
        | (.ok (), target) =>
            let checked : Except String Unit := do
              if !(inspectTarget target).tablesExist then
                throw "MySQL schema initialization did not create the Proxy tables."
              requireEmptyTarget (inspectTarget target)
            match checked with
            | .error e => (.error e, target)
            | .ok () =>
                match copyAll server seed data target with
                | .error e => (.error e, target)
                | .ok copied =>
                    (.ok { accounts := data.accounts.length
                           requestStats := data.requestStats.length, dryRun := false }, copied)

end Migration

end GhcpConsole.Upgrade
