import GhcpConsole.Pool.Admission

/-!
# The SQLite store: reservation, provisioning rows and operator actions

Members are created by the reservations, moved along by `update` under a fence, and taken out
of or back into service by `fail`, `disable` and `retry`. `claimLoginDispatch` and
`releaseLoginReservation` are the two ends of a login slot, which is implicit in the stage of
the row.
-/

namespace GhcpConsole.Pool

/-- SQLite `lower()`: ASCII letters only. -/
def lower (s : String) : String := String.ofList (s.toList.map Char.toLower)

/-- `accountName(ordinal)`, for an ordinal below the capacity. -/
def accountName (catalog : NameCatalog) (ordinal : Nat) : String :=
  let suffix := toString (ordinal / nameBaseCount)
  catalog.names.getD (ordinal % nameBaseCount) "" ++ (if suffix.length < 2 then "0" else "") ++ suffix

/-- A row of `proxy_accounts` takes the name, as identity or as SSO user, in any letter case. -/
def Db.collides (db : Db) (identity : String) : Bool :=
  db.accounts.any fun a =>
    lower a.identity = lower identity || lower a.credentials.ssoUser = lower identity

def loginStage : Stage → Bool
  | .oauthDispatch | .oauthWait => true
  | _ => false

/-- `SELECT COUNT(*) ... WHERE stage IN ('oauth-dispatch', 'oauth-wait')`. -/
def Db.occupied (db : Db) : Nat := db.members.countP fun m => loginStage m.stage

/-- `state = 'disabled' OR (state = 'failed' AND attempts >= 3)`. -/
def exhausted (m : Inventory) : Bool :=
  m.state = .disabled || (m.state = .failed && 3 ≤ m.attempts)

section
variable (env : Env)

/-! ## Reservation -/

def planBatch (eligible : List String) (limit : Nat) : StoreM (List String) := do
  let enterprises ← select schedulingEnterprises
  reclaim env
  let t ← now env
  let supply ← select fun db => poolSupply db t
  let settings ← select (·.settings)
  ofExcept (planReplenishment enterprises eligible supply settings settings.nextOrdinal limit)

def newMember (identity attemptId enterpriseId : String) (ordinal t : Nat) : Inventory :=
  { identity := identity, enterpriseId := enterpriseId, ordinal := ordinal
    state := .provisioning, stage := .new, attemptId := attemptId, oauthAttemptId := none
    ssoCreatedAt := none, taskId := none, attempts := 0, retryAt := t, lastError := none
    updatedAt := t, cooldownUntil := 0, verifiedAt := none, generation := 0
    reauthCount := 0, reauthWindowAt := 0 }

def newAccount (identity enterpriseId : String) (t : Nat) : ProxyAccount :=
  { identity := identity, enterpriseId := enterpriseId
    credentials := { token := none, status := .missing, attemptId := none
                     oauthUpdatedAt := none, ssoUser := identity, ghLogin := none }
    createdAt := t, updatedAt := t }

/-- The member, its Proxy account and N_e += 1 are one write. -/
def insertMember (identity : String) (ordinal : Nat) (enterpriseId : String) : StoreM Unit := do
  let t ← now env
  require (fun db => (db.account identity).isNone && (db.enterprise enterpriseId).isSome)
    "constraint failed: proxy_accounts"
  exec (.insertAccount (newAccount identity enterpriseId t))
  let attemptId ← randomUuid env
  require (fun db => (db.inventory identity).isNone
    && !(db.members.any fun m => m.ordinal = ordinal)) "constraint failed: user_pool_accounts"
  exec (.insertMember (newMember identity attemptId enterpriseId ordinal t))
  exec (.incrementInventory enterpriseId)

/-- The scan of `reserveCandidate`; the fuel is the number of names left. -/
def reserveFrom (enterpriseId : String) : Nat → Nat → StoreM (Except StoreError Inventory)
  | 0, _ => pure (.error (.pool 503 "name_catalog_exhausted" 0))
  | left + 1, ordinal => do
      let identity := accountName env.catalog ordinal
      exec (.setNextOrdinal (ordinal + 1))
      let collision ← select fun db => db.collides identity
      if collision then reserveFrom enterpriseId left (ordinal + 1) else do
      insertMember env identity ordinal enterpriseId
      recordEvent env { action := "name_reserved", identity := identity }
      match ← select fun db => db.inventory identity with
      | some row => pure (.ok row)
      | none => Tx.raise (.other "reserved row is missing")

def reserveCandidate (enterpriseId : String) : StoreM (Except StoreError Inventory) := do
  let ordinal ← select (·.settings.nextOrdinal)
  reserveFrom env enterpriseId (nameCapacity - ordinal) ordinal

/-- Reserves at most one member, in the enterprise the shared ranking picks. -/
def reserve (eligibleEnterpriseIds : List String) : StoreM (Option Inventory) := do
  let eligible ← ofExcept (eligibleEnterprises eligibleEnterpriseIds)
  let result ← transaction do
    let plan ← planBatch env eligible 1
    match plan with
    | [] => pure (.ok none)
    | enterpriseId :: _ => do
        match ← reserveCandidate env enterpriseId with
        | .ok row => pure (.ok (some row))
        | .error e => pure (.error e)
  ofExcept result

/-- The loop of `reserveDeficit`; it stops at the first reservation that fails. -/
def reserveAll : List String → StoreM Nat
  | [] => pure 0
  | enterpriseId :: rest => do
      match ← reserveCandidate env enterpriseId with
      | .error _ => pure 0
      | .ok _ => do
          let reserved ← reserveAll rest
          pure (reserved + 1)

/-- One replenishment batch; returns the number of members reserved. -/
def reserveDeficit (owner : String) (eligibleEnterpriseIds : List String) : StoreM Nat := do
  let eligible ← ofExcept (eligibleEnterprises eligibleEnterpriseIds)
  transaction do
    let owned ← matchesOwner env (some owner)
    if !owned then pure 0 else do
    let plan ← planBatch env eligible nameCapacity
    reserveAll env plan

/-! ## Work selection -/

/-- `PROGRESS_ORDER`. -/
def progressOrder : Stage → Nat
  | .warmup | .ready => 0
  | .oauthWait => 1
  | .oauthDispatch => 2
  | .oauthStarting => 3
  | .synced => 4
  | .seatAssigning => 5
  | .scimSynced => 6
  | .scimSyncing => 7
  | .ssoCreated => 8
  | .ssoCreating => 9
  | .new => 10

/-- `PendingSelection.orderSql()`: one selection in four uses age alone. -/
def pendingOrder (selections : Nat) (a b : Inventory) : Ordering :=
  (if selections = 3 then .eq
    else compare (progressOrder a.stage) (progressOrder b.stage)).then
    ((compare a.retryAt b.retryAt).then
      ((compare a.updatedAt b.updatedAt).then (compare a.ordinal b.ordinal)))

/-- The row may be worked on at `now`. -/
def pendingEligible (db : Db) (now : Nat) (excluded : List String) (loginMaxPending : Nat)
    (p : Inventory) : Bool :=
  p.retryAt ≤ now
  && (p.state = .provisioning
      || (p.state = .failed && p.attempts < 3 && !isManual p.lastError))
  && !excluded.contains p.identity
  && !(db.holds.any fun h => db.leases.any fun l =>
        l.leaseId = h.leaseId && l.memberIdentity = p.identity)
  && !(db.catalogHolds.any fun h => h.memberIdentity = p.identity)
  && (p.stage ≠ .oauthStarting || db.occupied < loginMaxPending)

def pending (excluded : List String) : StoreM (Option Inventory) := do
  let selections ← Tx.read (·.selections)
  let row ← transaction do
    reclaim env
    let settings ← select (·.settings)
    if settings.paused then pure none else do
    let t ← now env
    select fun db => (orderBy (pendingOrder selections) (db.members.filter
      (pendingEligible db t excluded (env.options.loginMaxPending.getD 5)))).head?
  if row.isSome then
    Tx.write fun w => { w with selections := (w.selections + 1) % 4 }
  pure row

/-! ## Failure, disabling and retry -/

def fail (identity code : String) (expected : Option InventoryFence) (owner : Option String)
    (terminal : Bool) : StoreM Unit :=
  transaction do
    match ← select fun db => db.inventory identity with
    | none => pure ()
    | some row =>
        if row.state = .disabled || !matchesFence row expected then pure () else do
        let owned ← matchesOwner env owner
        if !owned then pure () else do
        let attempts := if terminal then max 3 (row.attempts + 1) else row.attempts + 1
        let t ← now env
        let _ ← update env identity
          { state := some .failed, attempts := some attempts, lastError := some (some code),
            retryAt := some (t + min 300 (30 * 2 ^ (attempts - 1)) * 1000) } none none
        recordEvent env { action := "provision_failed", identity := identity, detail := code }

def disable (identity : String) : StoreM Unit :=
  transaction do
    match ← select fun db => db.inventory identity with
    | none => throwPool 404 "member_not_found" 0
    | some row =>
        if row.state = .disabled then pure () else do
        let attemptId ← randomUuid env
        let _ ← update env identity
          { state := some .disabled, attemptId := some attemptId } none none
        releaseInactive env identity
        recordEvent env { action := "member_disabled", identity := identity }

/-- Only an explicit retry leaves the disabled state; uncertain stages and tasks are kept. -/
def retry (identity : String) : StoreM Unit :=
  transaction do
    match ← select fun db => db.inventory identity with
    | none => throwPool 404 "member_not_found" 0
    | some row => do
        let held ← hasHolds env identity
        if held || !(row.state = .failed || row.state = .disabled) then
          throwPool 409 "member_in_use" 0
        else if isManual row.lastError then
          throwPool 409 "manual_reconciliation_required" 0
        else do
        releaseInactive env identity
        let attemptId ← randomUuid env
        let t ← now env
        exec (.retryMember identity attemptId
          (if row.stage = .ready then .warmup else row.stage) t)
        recordEvent env { action := "member_retry", identity := identity }

/-! ## Fenced worker writes -/

/-- `WorkerCredentialFence`. -/
structure WorkerCredentialFence where
  attemptId : String
  generation : Int
  stage : Stage
deriving DecidableEq, Repr

def WorkerCredentialFence.toFence (f : WorkerCredentialFence) : InventoryFence :=
  .snapshot f.attemptId f.generation (some f.stage)

inductive WorkerCredentialMutation
  | link (ghLogin : String)
  | begin (oauthAttemptId : String)
  | invalidate (expectedToken : String)
deriving DecidableEq, Repr

/-- The common guard of the two fenced worker writes. -/
def workerGuard (identity : String) (stage : Stage) (fence : WorkerCredentialFence)
    (owner : String) : StoreM Bool := do
  match ← select fun db => db.inventory identity with
  | none => pure false
  | some row =>
      if row.state ≠ .provisioning || row.stage ≠ stage || !matchesFence row fence.toFence then
        pure false
      else do
        let owned ← matchesOwner env (some owner)
        if !owned then pure false else do
        let held ← hasHolds env identity
        pure !held

def applyMutation (identity : String) (t : Nat) : WorkerCredentialMutation → StoreM Bool
  | .link ghLogin => updateAccount identity
      (fun c => c.ssoUser = identity && (c.ghLogin.isNone || c.ghLogin = some ghLogin))
      (fun c => { c with ghLogin := some ghLogin }) t
  | .begin oauthAttemptId => updateAccount identity (fun c => c.ssoUser = identity)
      (fun c => { c with status := .refreshing, attemptId := some oauthAttemptId }) t
  | .invalidate expectedToken => invalidateToken identity expectedToken t

def mutateWorkerCredential (identity : String) (fence : WorkerCredentialFence) (owner : String)
    (mutation : WorkerCredentialMutation) : StoreM Bool :=
  transaction do
    let admitted ← workerGuard env identity fence.stage fence owner
    if !admitted then pure false else do
    let t ← now env
    applyMutation identity t mutation

def claimLoginDispatch (identity : String) (fence : WorkerCredentialFence) (owner : String)
    (limit : Int) : StoreM Bool :=
  if !isSafeInteger limit || limit < 1 || 100 < limit then
    throwPool 400 "invalid_login_limit" 0
  else transaction do
    let admitted ← workerGuard env identity .oauthStarting fence owner
    if !admitted then pure false else do
    let occupied ← select (·.occupied)
    if limit ≤ occupied then pure false else
      update env identity { stage := some .oauthDispatch } fence.toFence owner

def listLoginReservations (db : Db) : List Inventory :=
  (orderBy (fun a b => compare a.ordinal b.ordinal)
    (db.members.filter fun m => loginStage m.stage && exhausted m)).take 100

inductive LoginReservationOutcome
  | success | failed
deriving DecidableEq, Repr

/-- The keys `releaseLoginReservation` compares with its snapshot. -/
def sameReservation (row fence : Inventory) : Bool :=
  row.attemptId = fence.attemptId && row.generation = fence.generation
  && row.stage = fence.stage && row.state = fence.state && row.attempts = fence.attempts
  && row.taskId = fence.taskId && row.oauthAttemptId = fence.oauthAttemptId
  && row.ssoCreatedAt = fence.ssoCreatedAt

def releaseLoginReservation (identity : String) (fence : Inventory) (owner : String)
    (outcome : LoginReservationOutcome) : StoreM Bool :=
  transaction do
    match ← select fun db => db.inventory identity with
    | none => pure false
    | some row =>
        if !loginStage row.stage || !exhausted row || !sameReservation row fence then
          pure false
        else do
          let owned ← matchesOwner env (some owner)
          if !owned then pure false else do
          let settings ← select (·.settings)
          if settings.paused then pure false else do
          let held ← hasHolds env identity
          if held then pure false else do
          exec (.releaseReservation identity
            (if outcome = .success then .warmup else .synced))
          pure true

end

end GhcpConsole.Pool
