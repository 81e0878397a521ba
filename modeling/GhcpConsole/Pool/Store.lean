import GhcpConsole.Pool.Scheduling

/-!
# The SQLite store: fences, updates and reclamation

The shared core of the store's operations: events, the attempt/generation/owner fences, the one
inventory update every state change goes through, and `reclaim`, the sweep every admission runs
first. Each function is the source method of the same name, statement by statement.
-/

namespace GhcpConsole.Pool

/-- `ORDER BY`: a stable sort by a comparator. -/
def orderBy {α : Type} (cmp : α → α → Ordering) (rows : List α) : List α :=
  rows.insertionSort fun a b => cmp a b ≠ .gt

/-- A violated constraint aborts the statement with a plain error. -/
def require (ok : Db → Bool) (message : String) : StoreM Unit := do
  let holds ← select ok
  if holds then pure () else Tx.raise (.other message)

def ofExcept {α : Type} : Except StoreError α → StoreM α := Tx.rethrow

/-! ## Fences -/

/-- `InventoryFence`: a legacy attempt id, or a snapshot of the row. -/
inductive InventoryFence
  | attempt (attemptId : String)
  | snapshot (attemptId : String) (generation : Int) (stage : Option Stage)
deriving DecidableEq, Repr

def matchesFence (row : Inventory) : Option InventoryFence → Bool
  | none => true
  | some (.attempt attemptId) => row.attemptId = attemptId
  | some (.snapshot attemptId generation stage) =>
      row.attemptId = attemptId && row.generation = generation
      && (stage.isNone || stage = some row.stage)

section
variable (env : Env)

def matchesOwner : Option String → StoreM Bool
  | none => pure true
  | some owner => do
      let t ← now env
      select fun db => db.ownedBy owner t

/-! ## Events -/

structure EventFields where
  action : String
  identity : Option String := none
  caller : Option String := none
  leaseId : Option String := none
  detail : Option String := none
  enterpriseId : Option String := none

/-- Events default to the member's enterprise; only the newest 10000 are kept. -/
def recordEvent (fields : EventFields) : StoreM Unit := do
  let t ← now env
  let row ← select fun db =>
    { id := (db.events.getLast?.map (·.id)).getD 0 + 1, at_ := t, action := fields.action,
      identity := fields.identity, callerId := fields.caller, leaseId := fields.leaseId,
      detail := fields.detail,
      enterpriseId := fields.enterpriseId.orElse fun _ =>
        (fields.identity.bind db.inventory).map (·.enterpriseId) : Event }
  exec (.insertEvent row)
  exec .trimEvents

/-! ## Inventory updates -/

def hasHolds (identity : String) : StoreM Bool := do
  let t ← now env
  select fun db => db.hasHolds identity t

/-- The write of `update`: a row that enters an invalidating state has its lease cut short. -/
def writePatch (identity : String) (patch : Patch) (row : Inventory) : StoreM Bool := do
  let t ← now env
  exec (.updateMember identity patch t (patch.invalidating row))
  if patch.invalidating row then
    let t' ← now env
    exec (.clampLease identity t')
  pure true

/-- Pass an inventory snapshot (or legacy attempt id) and owner to fence asynchronous results. -/
def update (identity : String) (patch : Patch) (expected : Option InventoryFence)
    (owner : Option String) : StoreM Bool :=
  transaction do
    match ← select fun db => db.inventory identity with
    | none => pure false
    | some row =>
        if row.state = .disabled || !matchesFence row expected then pure false else do
        let owned ← matchesOwner env owner
        if !owned then pure false else do
        if patch = {} then pure true else do
        let held ← if patch.state = some .provisioning then hasHolds env identity else pure false
        if held then pure false else writePatch env identity patch row

/-! ## Reclamation -/

def expiredLeases (db : Db) (now : Nat) : List LeaseRow :=
  db.leases.filter fun l => l.expiresAt ≤ now &&
    match db.inventory l.memberIdentity with
    | some p => p.state ≠ .cooling
    | none => false

/-- Ready or cooling members whose account has no valid credential. -/
def invalidMembers (db : Db) : List String :=
  (db.members.filter fun p => (p.state = .ready || p.state = .cooling) &&
    match db.account p.identity with
    | some a => !a.credentials.usable
    | none => false).map (·.identity)

def unverifiedMembers (db : Db) : List String :=
  (db.members.filter fun p => p.state = .ready && p.verifiedAt.isNone).map (·.identity)

/-- One round of the last loop of `reclaim`: an expired lease goes unless its member is held. -/
def reclaimLease (lease : LeaseRow) : StoreM Unit := do
  let held ← hasHolds env lease.memberIdentity
  if held then pure () else do
  exec (.deleteLease lease.leaseId)
  recordEvent env { action := "lease_expired", identity := lease.memberIdentity,
                    caller := lease.callerId, leaseId := lease.leaseId }

def reclaim : StoreM Unit :=
  transaction do
    let t ← now env
    exec (.deleteExpiredHolds t)
    exec (.deleteExpiredCatalogHolds t)
    exec (.deleteExpiredCooldowns t)
    exec (.wakeCooled t)
    let invalid ← select invalidMembers
    invalid.forM fun identity => do
      let _ ← update env identity
        { state := some .failed, lastError := some (some "credential_not_valid"),
          retryAt := some (t + 30000) } none none
    let unverified ← select unverifiedMembers
    unverified.forM fun identity => do
      let _ ← update env identity
        { state := some .failed, stage := some .warmup,
          lastError := some (some "credential_not_verified"), retryAt := some t } none none
    let expired ← select fun db => expiredLeases db t
    expired.forM (reclaimLease env)

/-! ## Settings, ownership and policies -/

def updateSettings (version : Int) (patch : SettingsPatch) : StoreM Settings :=
  transaction do
    let current ← select (·.settings)
    let next ← ofExcept (nextSettings version current patch)
    exec (.updateSettings next.idleTarget next.leaseSeconds next.paused)
    recordEvent env { action := "settings_updated" }
    select (·.settings)

def claimOwner (owner : String) : StoreM Bool := do
  let t ← now env
  let free ← select fun db => db.settings.owner = some owner || db.settings.ownerUntil ≤ t
  if free then
    exec (.setOwner (some owner) (t + 30000))
    pure true
  else pure false

def renewOwner (owner : String) : StoreM Bool := do
  let t ← now env
  let owned ← select fun db => db.ownedBy owner t
  if owned then
    exec (.setOwner (some owner) (t + 30000))
    pure true
  else pure false

def releaseOwner (owner : String) : StoreM Unit := do
  let owned ← select fun db => decide (db.settings.owner = some owner)
  if owned then exec (.setOwner none 0)

def LifecycleState.text : LifecycleState → String
  | .draft => "draft"
  | .active => "active"
  | .draining => "draining"

/-- `JSON.stringify(next)`. -/
def PolicyChange.json (next : PolicyChange) : String :=
  "\x7b\"maxAccounts\":" ++ toString next.maxAccounts ++ ",\"state\":\"" ++ next.state.text
    ++ "\"\x7d"

/-- Compare-and-set on `policy_version`; readiness for activation is the caller's check. -/
def updateEnterprisePolicy (id : String) (expectedVersion : Int) (patch : PolicyPatch) :
    StoreM Enterprise :=
  transaction do
    let rows ← select schedulingEnterprises
    match rows.find? fun row => row.id = id with
    | none => throwPool 404 "enterprise_not_found" 0
    | some current =>
        let next ← ofExcept (nextPolicy current rows expectedVersion patch)
        let t ← now env
        exec (.setPolicy id next.maxAccounts next.state t)
        recordEvent env { action := "enterprise_policy_updated", enterpriseId := id,
                          detail := next.json }
        match ← select fun db => db.enterprise id with
        | some row => pure row
        | none => throwPool 404 "enterprise_not_found" 0

structure InventoryDrift where
  enterpriseId : String
  stored : Nat
  actual : Nat
deriving DecidableEq, Repr

/-- The member rows of an enterprise, the N_e that `inventory_count` caches. -/
def Db.memberCount (db : Db) (enterpriseId : String) : Nat :=
  db.members.countP fun p => p.enterpriseId = enterpriseId

def inventoryDrifts (db : Db) : List InventoryDrift :=
  ((schedulingEnterprises db).filter fun e => e.inventoryCount ≠ db.memberCount e.id).map
    fun e => ⟨e.id, e.inventoryCount, db.memberCount e.id⟩

/-- Recomputes every `inventory_count` from `user_pool_accounts` and returns the corrections. -/
def correctInventoryCounts : StoreM (List InventoryDrift) := do
  let drifts ← select inventoryDrifts
  drifts.forM fun drift => exec (.setInventoryCount drift.enterpriseId drift.actual)
  pure drifts

def correctInventoryDrift : StoreM Nat :=
  transaction do
    let drifts ← correctInventoryCounts
    drifts.forM fun drift =>
      recordEvent env { action := "enterprise_inventory_drift", enterpriseId := drift.enterpriseId,
                        detail := "stored=" ++ toString drift.stored ++ " actual="
                          ++ toString drift.actual }
    pure drifts.length

end

end GhcpConsole.Pool
