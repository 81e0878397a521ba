import GhcpConsole.Pool.Operations

/-!
# Start-up

What a start of the Proxy does to the database before it serves: the registry and the pool
configuration are validated, the enterprises of the registry are seeded and checked, and in
caller-lease mode the pool tables are created. Each transaction of the start is a phase; a phase
that throws is rolled back and ends the start, and a crash ends it between two phases.
-/

namespace GhcpConsole.Pool

def defaultEnterpriseId : String := "default"

/-! ## Registry and configuration -/

/-- An entry of the registry file, with the fields the caps depend on. -/
structure RegistryEntry where
  id : String
  /-- `pool.initialMaxAccounts`. -/
  initialMaxAccounts : Option Nat
  /-- `profileFingerprint` of the resolved profile. -/
  fingerprint : String
deriving DecidableEq, Repr

/-- The environment of one start. -/
structure StartConfig where
  /-- The entries of `ENTERPRISE_REGISTRY_FILE`; none without the variable. -/
  registry : Option (List RegistryEntry)
  /-- The fingerprint of a `default` profile that comes from the environment alone. -/
  defaultFingerprint : String
  /-- `ACCOUNT_ROUTING_MODE=caller-lease`. -/
  poolMode : Bool
  /-- `POOL_MAX_ACCOUNTS`. -/
  poolMaxAccounts : Option Nat
deriving DecidableEq, Repr

/-- `EnterpriseSeed`. -/
structure EnterpriseSeed where
  id : String
  fingerprint : String
  maxAccounts : Nat
deriving DecidableEq, Repr

def defaultEnterpriseMaxAccounts : Nat := 100
def enterpriseMaxAccounts : Nat := 10
def maxEnterprises : Nat := 32

/-- `readCount`. -/
def readCount (value : Nat) : Except StoreError Nat :=
  if 1 ≤ value ∧ value ≤ nameCapacity then .ok value
  else .error (.other s!"must be an integer between 1 and {nameCapacity}")

def readOptionalCount : Option Nat → Except StoreError (Option Nat)
  | none => .ok none
  | some value => (readCount value).map some

/-- The `maxAccounts` of `readPoolConfig`; there is no pool outside caller-lease mode. -/
def readPoolMaxAccounts (cfg : StartConfig) : Except StoreError (Option Nat) :=
  if cfg.poolMode then
    match cfg.poolMaxAccounts with
    | none => .ok (some 100)
    | some value =>
        if 1 ≤ value ∧ value ≤ nameCapacity then .ok (some value)
        else .error (.other "Invalid POOL_MAX_ACCOUNTS")
  else .ok none

/-- `readRegistryEntries`: the shape of the file. -/
def readRegistryEntries : Option (List RegistryEntry) → Except StoreError (List RegistryEntry)
  | none => .ok []
  | some entries =>
      if entries.isEmpty || maxEnterprises < entries.length then
        .error (.other "enterprises must be an array of 1 to 32 enterprises")
      else if entries.any fun e => !isEnterpriseId e.id then
        .error (.other "id must match the enterprise id pattern")
      else if entries.any fun e => (e.initialMaxAccounts.map readCount).any fun r => !r.isOk then
        .error (.other "pool.initialMaxAccounts is not a count")
      else .ok entries

/-- `mergeEnvFields`, for `pool.initialMaxAccounts`: both sides must agree. -/
def mergeCap : Option Nat → Option Nat → Except StoreError (Option Nat)
  | some fileCap, some envCap =>
      if fileCap = envCap then .ok (some envCap) else .error (.other "enterprise_env_conflict")
  | fileCap, none => .ok fileCap
  | none, envCap => .ok envCap

/-- `resolvePool`. -/
def resolvePool (entry : RegistryEntry) : Nat :=
  entry.initialMaxAccounts.getD
    (if entry.id = defaultEnterpriseId then defaultEnterpriseMaxAccounts else enterpriseMaxAccounts)

/-- `resolveRegistry`: unique ids, and caps that fit the name catalog together. -/
def resolveRegistry (entries : List RegistryEntry) : Except StoreError (List RegistryEntry) :=
  if entries.isEmpty || maxEnterprises < entries.length then
    .error (.other "enterprises must contain 1 to 32 enterprises")
  else if ¬(entries.map (·.id)).Nodup then .error (.other "duplicate id")
  else if nameCapacity < (entries.map resolvePool).sum then
    .error (.other "pool.initialMaxAccounts must not sum to more than 10000 across enterprises")
  else .ok entries

/-- `defaultFromEnv`, for `POOL_MAX_ACCOUNTS`: pool variables only count in caller-lease mode. -/
def defaultFromEnv (cfg : StartConfig) : Except StoreError (Option Nat) :=
  if cfg.poolMode then readOptionalCount cfg.poolMaxAccounts else .ok none

/-- `loadRegistry` of the Proxy: `default` is merged with its environment, or comes from it. -/
def loadRegistry (cfg : StartConfig) : Except StoreError (List RegistryEntry) := do
  let fileEntries ← readRegistryEntries cfg.registry
  let fileDefault := fileEntries.find? fun e => e.id = defaultEnterpriseId
  let envCap ← defaultFromEnv cfg
  let cap ← mergeCap (fileDefault.bind (·.initialMaxAccounts)) envCap
  match fileDefault with
  | some entry =>
      resolveRegistry (fileEntries.map fun e =>
        if e.id = defaultEnterpriseId then { entry with initialMaxAccounts := cap } else e)
  | none => resolveRegistry (⟨defaultEnterpriseId, cap, cfg.defaultFingerprint⟩ :: fileEntries)

def enterpriseSeed (entry : RegistryEntry) : EnterpriseSeed :=
  ⟨entry.id, entry.fingerprint, resolvePool entry⟩

/-- `enterpriseSeeds`: every enterprise of the registry, `default` first. -/
def enterpriseSeeds (cfg : StartConfig) : Except StoreError (EnterpriseSeed × List EnterpriseSeed) := do
  let registry ← loadRegistry cfg
  let seeds := registry.map enterpriseSeed
  match seeds.find? fun s => s.id = defaultEnterpriseId with
  | none => .error (.other "The enterprise registry has no default enterprise.")
  | some seed => .ok (seed, seeds.filter fun s => s.id ≠ defaultEnterpriseId)

/-! ## The database between starts -/

/-- The database file: until `pool` the pool tables are absent, and `world.db` has no members and a
settings row that does not count. -/
structure Site where
  world : World
  pool : Bool
deriving DecidableEq, Repr

/-- The sum of `max_accounts` over all `proxy_enterprises` rows. -/
def Db.capSum (db : Db) : Nat := (db.enterprises.map (·.maxAccounts)).sum

namespace Db

def insertEnterprise (db : Db) (row : Enterprise) : Db :=
  { db with enterprises := db.enterprises ++ [row] }

def setFingerprint (db : Db) (id fingerprint : String) (now : Nat) : Db :=
  db.mapEnterprise id fun e => { e with profileFingerprint := fingerprint, updatedAt := now }

def setCap (db : Db) (id : String) (maxAccounts now : Nat) : Db :=
  db.mapEnterprise id fun e => { e with
    maxAccounts := maxAccounts, policyVersion := e.policyVersion + 1, updatedAt := now }

end Db

def execDb (f : Db → Db) : StoreM Unit := Tx.write fun w => { w with db := f w.db }

section
variable (env : Env)

/-! ## Seeding -/

/-- The single-enterprise pool persisted its cap in `user_pool_settings`; it belongs to `default`. -/
def initialCap (pool : Bool) (seed : EnterpriseSeed) (db : Db) : Nat :=
  if seed.id ≠ defaultEnterpriseId || !pool then seed.maxAccounts else db.settings.maxAccounts

def poolMemberCount (pool : Bool) (id : String) (db : Db) : Nat :=
  if pool then db.memberCount id else 0

/-- ΣC_e must stay within the shared name catalog, also when a new enterprise is seeded. -/
def assertNameCapacity (cap : Nat) : StoreM Unit := do
  let total ← select fun db => cap + db.capSum
  if total ≤ nameCapacity then pure () else Tx.raise (.other "name_capacity_exceeded")

/-- Inserts the seeded enterprise when it is missing. -/
def ensureEnterprise (pool : Bool) (seed : EnterpriseSeed) : StoreM Unit := do
  let found ← select fun db => (db.enterprise seed.id).isSome
  if found then pure () else do
  let cap ← select (initialCap pool seed)
  assertNameCapacity cap
  let t ← now env
  let count ← select (poolMemberCount pool seed.id)
  execDb fun db => db.insertEnterprise
    { id := seed.id, state := if seed.id = defaultEnterpriseId then .active else .draft
      maxAccounts := cap, inventoryCount := count, policyVersion := 1
      profileFingerprint := seed.fingerprint, createdAt := t, updatedAt := t }

/-- Fails closed when the identity of an enterprise with pool members changed. -/
def verifyEnterpriseIdentity (seed : EnterpriseSeed) : StoreM Unit := do
  match ← select fun db => db.enterprise seed.id with
  | none => Tx.raise (.other "enterprise is missing from proxy_enterprises")
  | some row =>
      if row.profileFingerprint = seed.fingerprint then pure ()
      else if 0 < row.inventoryCount then Tx.raise (.other "enterprise_identity_changed")
      else do
        let t ← now env
        execDb fun db => db.setFingerprint seed.id seed.fingerprint t

/-- An enterprise outside the registry still has pool members. -/
def orphaned (pool : Bool) (seeds : List EnterpriseSeed) (db : Db) : Bool :=
  db.enterprises.any fun row => !(seeds.any fun s => s.id = row.id)
    && (0 < row.inventoryCount || 0 < poolMemberCount pool row.id db)

def seedEnterprise (pool : Bool) (seed : EnterpriseSeed) : StoreM Unit := do
  ensureEnterprise env pool seed
  verifyEnterpriseIdentity env seed

def syncRegistryEnterprises (pool : Bool) (seeds : List EnterpriseSeed) : StoreM Unit := do
  seeds.forM (seedEnterprise env pool)
  let missing ← select (orphaned pool seeds)
  if missing then Tx.raise (.other "enterprise_missing_from_registry")

def setEnterpriseCap (id : String) (maxAccounts : Nat) : StoreM Unit := do
  let t ← now env
  let found ← select fun db => (db.enterprise id).isSome
  execDb fun db => db.setCap id maxAccounts t
  if found then pure () else Tx.raise (.other "enterprise is missing from proxy_enterprises")

/-- A newly created pool gives `default` its configured cap; afterwards the persisted cap wins. -/
def initializeEnterprise (created : Bool) (maxAccounts : Nat) : StoreM Unit := do
  let found ← select fun db => (db.enterprise defaultEnterpriseId).isSome
  if !found then
    Tx.raise (.other "The default enterprise is missing; run the Proxy migrations first.")
  else do
  if created then setEnterpriseCap env defaultEnterpriseId maxAccounts
  let _ ← correctInventoryDrift env

/-! ## One start -/

/-- A start under way. -/
structure Boot where
  site : Site
  /-- The settings row was inserted by this start. -/
  created : Bool

/-- Run a transaction of the start; a throw leaves the database as it was. -/
def Boot.tx (b : Boot) (body : StoreM Unit) : Except StoreError Boot :=
  match transaction body b.site.world with
  | (.ok (), w) => .ok { b with site := { b.site with world := w } }
  | (.error e, _) => .error e

/-- `createTables`: empty tables, and `INSERT OR IGNORE` of the settings row. -/
def createTables (maxAccounts : Nat) (b : Boot) : Except StoreError Boot :=
  if b.site.pool then .ok { b with created := false }
  else
    let db := b.site.world.db
    let settings : Settings :=
      { version := 1, idleTarget := env.options.idleTarget, maxAccounts := maxAccounts
        leaseSeconds := env.options.leaseSeconds, paused := false, nextOrdinal := 0
        owner := none, ownerUntil := 0 }
    let tables : Db :=
      { db with
        settings := settings, members := [], leases := [], holds := [], catalogHolds := []
        catalogCooldowns := [], events := [] }
    .ok { site := { world := { b.site.world with db := tables }, pool := true }, created := true }

/-- The phases of a start with these seeds, in order. -/
def phases (seed : EnterpriseSeed) (others : List EnterpriseSeed) (maxAccounts : Option Nat) :
    List (Boot → Except StoreError Boot) :=
  [fun b => b.tx (ensureEnterprise env b.site.pool seed),
    fun b => b.tx (seedEnterprise env b.site.pool seed),
    fun b => b.tx (syncRegistryEnterprises env b.site.pool (seed :: others))]
  ++ match maxAccounts with
    | none => []
    | some n => [createTables env n, fun b => b.tx (initializeEnterprise env b.created n)]

/-- Phase after phase, until one throws. -/
def runPhases : List (Boot → Except StoreError Boot) → Boot → Boot
  | [], b => b
  | p :: ps, b =>
      match p b with
      | .ok b' => runPhases ps b'
      | .error _ => b

/-- What a start validates before it opens the database: the seeds, and the pool's cap. -/
def readConfig (cfg : StartConfig) :
    Except StoreError (EnterpriseSeed × List EnterpriseSeed × Option Nat) := do
  let maxAccounts ← readPoolMaxAccounts cfg
  let (seed, others) ← enterpriseSeeds cfg
  .ok (seed, others, maxAccounts)

/-- A start that crashes after `crash` phases, unless it ends before. -/
def start (site : Site) (cfg : StartConfig) (crash : Nat) : Site :=
  match readConfig cfg with
  | .error _ => site
  | .ok (seed, others, maxAccounts) =>
      (runPhases ((phases env seed others maxAccounts).take crash) ⟨site, false⟩).site

/-! ## Runs of starts and operations -/

inductive SiteStep
  | start (cfg : StartConfig) (crash : Nat)
  /-- An operation of the store, once there is a pool. -/
  | op (op : Op)

def siteStep (site : Site) : SiteStep → Site
  | .start cfg crash => start env site cfg crash
  | .op op => if site.pool then { site with world := step env site.world op } else site

def siteRun (site : Site) (steps : List SiteStep) : Site := steps.foldl (siteStep env) site

end

end GhcpConsole.Pool
