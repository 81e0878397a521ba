import GhcpConsole.Pool.Schema

/-!
# Queries and statements of the store

The reads of the store are functions of `Db`; its writes are the statements `Stmt`, one
constructor an SQL statement, with `Stmt.apply` saying what the statement (and the trigger it
fires) does to the tables. Store operations change the database through `exec` only, so what
a statement may do bounds what any operation may do.
-/

namespace GhcpConsole.Pool

/-! ## Queries -/

namespace Db

/-- `inventory(identity)`. -/
def inventory (db : Db) (identity : String) : Option Inventory :=
  db.members.find? fun m => m.identity = identity

def account (db : Db) (identity : String) : Option ProxyAccount :=
  db.accounts.find? fun a => a.identity = identity

def enterprise (db : Db) (id : String) : Option Enterprise :=
  db.enterprises.find? fun e => e.id = id

/-- `copilot_oauth_status = 'valid' AND length(copilot_oauth_token) > 0` of a member's account. -/
def usable (db : Db) (identity : String) : Bool :=
  match db.account identity with
  | some a => a.credentials.usable
  | none => false

/-- A lease row as the `Lease` record: the join with its member's inventory row. -/
def leaseRecord (db : Db) (l : LeaseRow) : Option Lease :=
  (db.inventory l.memberIdentity).map fun p =>
    { callerId := l.callerId, memberIdentity := l.memberIdentity, enterpriseId := p.enterpriseId,
      leaseId := l.leaseId, phase := l.phase, assignedAt := l.assignedAt,
      lastSuccessAt := l.lastSuccessAt, expiresAt := l.expiresAt }

/-- The rows of `user_pool_holds` and `user_pool_catalog_holds` that pin a member at `now`. -/
def hasHolds (db : Db) (identity : String) (now : Nat) : Bool :=
  (db.holds.any fun h => now < h.expiresAt
    && db.leases.any fun l => l.leaseId = h.leaseId && l.memberIdentity = identity)
  || db.catalogHolds.any fun h => h.memberIdentity = identity && now < h.expiresAt

/-- `owner = ? AND owner_until > ?`. -/
def ownedBy (db : Db) (owner : String) (now : Nat) : Bool :=
  db.settings.owner = some owner && now < db.settings.ownerUntil

end Db

/-! ## Patches of an inventory row -/

/-- `Partial<Inventory>` over `INVENTORY_KEYS`; `none` is an absent key. -/
structure Patch where
  state : Option MemberState := none
  stage : Option Stage := none
  attemptId : Option String := none
  oauthAttemptId : Option (Option String) := none
  ssoCreatedAt : Option (Option String) := none
  taskId : Option (Option String) := none
  attempts : Option Nat := none
  retryAt : Option Nat := none
  lastError : Option (Option String) := none
  cooldownUntil : Option Nat := none
  verifiedAt : Option (Option Nat) := none
deriving DecidableEq, Repr

/-- `UPDATE user_pool_accounts SET <patch>`. -/
def Patch.apply (p : Patch) (m : Inventory) : Inventory :=
  { m with
    state := p.state.getD m.state
    stage := p.stage.getD m.stage
    attemptId := p.attemptId.getD m.attemptId
    oauthAttemptId := p.oauthAttemptId.getD m.oauthAttemptId
    ssoCreatedAt := p.ssoCreatedAt.getD m.ssoCreatedAt
    taskId := p.taskId.getD m.taskId
    attempts := p.attempts.getD m.attempts
    retryAt := p.retryAt.getD m.retryAt
    lastError := p.lastError.getD m.lastError
    cooldownUntil := p.cooldownUntil.getD m.cooldownUntil
    verifiedAt := p.verifiedAt.getD m.verifiedAt }

/-- `['failed', 'disabled', 'provisioning'].includes(state)`. -/
def MemberState.invalidates : MemberState → Bool
  | .failed | .disabled | .provisioning => true
  | .ready | .cooling => false

/-- The patch moves the row into another one of the invalidating states. -/
def Patch.invalidating (p : Patch) (m : Inventory) : Bool :=
  match p.state with
  | some s => s.invalidates && s ≠ m.state
  | none => false

/-! ## Statements -/

inductive Stmt
  | deleteExpiredHolds (now : Nat)
  | deleteExpiredCatalogHolds (now : Nat)
  | deleteExpiredCooldowns (now : Nat)
  /-- Cooling members whose cooldown is over become ready again. -/
  | wakeCooled (now : Nat)
  | updateMember (identity : String) (patch : Patch) (now : Nat) (invalidating : Bool)
  | clampLease (identity : String) (now : Nat)
  | deleteLease (leaseId : String)
  | deleteLeaseOf (identity : String)
  | insertLease (row : LeaseRow)
  | insertHold (row : HoldRow)
  | insertCatalogHold (row : CatalogHold)
  | renewLease (held : HeldLease) (now expiresAt : Nat)
  /-- `DELETE FROM <table of the hold> WHERE request_id = ? AND lease_id = ?`. -/
  | deleteHold (held : HeldLease)
  /-- An `UPDATE` of an account's credential columns; it fires `user_pool_credential_fence`. -/
  | writeCredentials (identity : String) (credentials : Credentials) (now : Nat)
  | setReauth (identity : String) (count windowAt : Nat)
  | coolCatalogCallers (identity : String) (expiresAt : Nat)
  | releaseReservation (identity : String) (stage : Stage)
  | retryMember (identity attemptId : String) (stage : Stage) (now : Nat)
  | setNextOrdinal (n : Nat)
  | insertAccount (row : ProxyAccount)
  | deleteAccount (identity : String)
  | insertMember (row : Inventory)
  | incrementInventory (enterpriseId : String)
  | setInventoryCount (enterpriseId : String) (count : Nat)
  | setPolicy (id : String) (maxAccounts : Nat) (state : LifecycleState) (now : Nat)
  | updateSettings (idleTarget leaseSeconds : Nat) (paused : Bool)
  | setOwner (owner : Option String) (ownerUntil : Nat)
  | insertEvent (row : Event)
  | trimEvents
deriving DecidableEq, Repr

namespace Db

def mapMember (db : Db) (identity : String) (f : Inventory → Inventory) : Db :=
  { db with members := db.members.map fun m => if m.identity = identity then f m else m }

def mapEnterprise (db : Db) (id : String) (f : Enterprise → Enterprise) : Db :=
  { db with enterprises := db.enterprises.map fun e => if e.id = id then f e else e }

/-- `DELETE FROM user_pool_leases`; the holds of a deleted lease go with it (`ON DELETE CASCADE`). -/
def deleteLeases (db : Db) (p : LeaseRow → Bool) : Db :=
  { db with
    leases := db.leases.filter fun l => !p l
    holds := db.holds.filter fun h => !db.leases.any fun l => p l && l.leaseId = h.leaseId }

/-- The body of `user_pool_credential_fence`. -/
def fence (db : Db) (identity : String) : Db :=
  db.mapMember identity fun m => { m with generation := m.generation + 1, verifiedAt := none }

def writeCredentials (db : Db) (identity : String) (c : Credentials) (now : Nat) : Db :=
  let written := { db with accounts := db.accounts.map fun a =>
    if a.identity = identity then { a with credentials := c, updatedAt := now } else a }
  match db.account identity with
  | some a => if a.credentials = c then written else written.fence identity
  | none => written

/-- `INSERT ... SELECT DISTINCT ... ON CONFLICT(caller_id) DO UPDATE SET expires_at = MAX(...)`. -/
def coolCatalogCallers (db : Db) (identity : String) (expiresAt : Nat) : Db :=
  { db with catalogCooldowns := callers.foldl insertCooldown db.catalogCooldowns }
where
  callers : List String :=
    ((db.catalogHolds.filter fun h => h.memberIdentity = identity).map (·.callerId)).eraseDups
  insertCooldown (rows : List CatalogCooldown) (caller : String) : List CatalogCooldown :=
    if rows.any fun r => r.callerId = caller then
      rows.map fun r =>
        if r.callerId = caller then { r with expiresAt := max r.expiresAt expiresAt } else r
    else rows ++ [⟨caller, identity, expiresAt⟩]

end Db

/-- What a statement does to the tables. -/
def Stmt.apply (db : Db) : Stmt → Db
  | .deleteExpiredHolds now => { db with holds := db.holds.filter fun h => now < h.expiresAt }
  | .deleteExpiredCatalogHolds now =>
      { db with catalogHolds := db.catalogHolds.filter fun h => now < h.expiresAt }
  | .deleteExpiredCooldowns now =>
      { db with catalogCooldowns := db.catalogCooldowns.filter fun c => now < c.expiresAt }
  | .wakeCooled now =>
      { db with members := db.members.map fun m =>
          if m.state = .cooling ∧ m.cooldownUntil ≤ now then
            { m with state := .ready, cooldownUntil := 0, updatedAt := now } else m }
  | .updateMember identity patch now invalidating =>
      db.mapMember identity fun m => { patch.apply m with
        updatedAt := now
        generation := if invalidating then m.generation + 1 else m.generation }
  | .clampLease identity now =>
      { db with leases := db.leases.map fun l =>
          if l.memberIdentity = identity then { l with expiresAt := min l.expiresAt now } else l }
  | .deleteLease leaseId => db.deleteLeases fun l => l.leaseId = leaseId
  | .deleteLeaseOf identity => db.deleteLeases fun l => l.memberIdentity = identity
  | .insertLease row => { db with leases := db.leases ++ [row] }
  | .insertHold row => { db with holds := db.holds ++ [row] }
  | .insertCatalogHold row => { db with catalogHolds := db.catalogHolds ++ [row] }
  | .renewLease held now expiresAt =>
      { db with leases := db.leases.map fun l =>
          if l.leaseId = held.leaseId ∧ l.callerId = held.callerId
              ∧ l.memberIdentity = held.memberIdentity
              ∧ db.members.any (fun m => m.identity = l.memberIdentity && m.state = .ready) then
            { l with phase := .active, lastSuccessAt := some now, expiresAt := expiresAt }
          else l }
  | .deleteHold held => match held.kind with
      | .lease => { db with holds := db.holds.filter fun h =>
          !(h.requestId = held.requestId && h.leaseId = held.leaseId) }
      | .catalog => { db with catalogHolds := db.catalogHolds.filter fun h =>
          !(h.requestId = held.requestId && h.leaseId = held.leaseId) }
  | .writeCredentials identity credentials now => db.writeCredentials identity credentials now
  | .setReauth identity count windowAt =>
      db.mapMember identity fun m => { m with reauthCount := count, reauthWindowAt := windowAt }
  | .coolCatalogCallers identity expiresAt => db.coolCatalogCallers identity expiresAt
  | .releaseReservation identity stage =>
      db.mapMember identity fun m =>
        { m with stage := stage, taskId := none, oauthAttemptId := none
                 generation := m.generation + 1 }
  | .retryMember identity attemptId stage now =>
      db.mapMember identity fun m => { m with
        state := .provisioning, attempts := 0, retryAt := 0, lastError := none
        cooldownUntil := 0, verifiedAt := none, generation := m.generation + 1
        attemptId := attemptId, stage := stage, updatedAt := now }
  | .setNextOrdinal n => { db with settings := { db.settings with nextOrdinal := n } }
  | .insertAccount row => { db with accounts := db.accounts ++ [row] }
  | .deleteAccount identity =>
      { db with accounts := db.accounts.filter fun a => a.identity ≠ identity }
  | .insertMember row => { db with members := db.members ++ [row] }
  | .incrementInventory enterpriseId =>
      db.mapEnterprise enterpriseId fun e => { e with inventoryCount := e.inventoryCount + 1 }
  | .setInventoryCount enterpriseId count =>
      db.mapEnterprise enterpriseId fun e => { e with inventoryCount := count }
  | .setPolicy id maxAccounts state now =>
      db.mapEnterprise id fun e => { e with
        maxAccounts := maxAccounts, state := state
        policyVersion := e.policyVersion + 1, updatedAt := now }
  | .updateSettings idleTarget leaseSeconds paused =>
      { db with settings := { db.settings with
          idleTarget := idleTarget, leaseSeconds := leaseSeconds, paused := paused
          version := db.settings.version + 1 } }
  | .setOwner owner ownerUntil =>
      { db with settings := { db.settings with owner := owner, ownerUntil := ownerUntil } }
  | .insertEvent row => { db with events := db.events ++ [row] }
  | .trimEvents =>
      { db with events := db.events.filter fun e =>
          !(e.id + 10000 ≤ (db.events.getLast?.map (·.id)).getD 0) }

/-- Run a statement. -/
def exec (st : Stmt) : StoreM Unit := Tx.write fun w => { w with db := st.apply w.db }

@[simp] theorem exec_run (st : Stmt) (w : World) :
    exec st w = (.ok (), { w with db := st.apply w.db }) := rfl

end GhcpConsole.Pool
