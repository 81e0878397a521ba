import Mathlib.Data.Rat.Floor
import GhcpConsole.Pool.Store

/-!
# The SQLite store: admission, holds and completions

`acquire` and `acquireCatalog` bind a caller to a member and pin the member with a hold;
`finish` ends a hold and may renew the lease; `release`, `releaseInactive` and the reports of
`cool`, `quarantine` and `recoverUnauthorized` end bindings or fence members. A handle is only
as good as its row: everything presented with a `HeldLease` goes through `heldRow` or
`currentHold`.
-/

namespace GhcpConsole.Pool

def holdDrainMs : Nat := 10000
def reauthWindowMs : Nat := 60 * 60 * 1000
def reauthMaxCycles : Nat := 3

/-- `/^sha256:[0-9a-f]{64}$/`. -/
def validCaller (caller : String) : Bool :=
  caller.toList.take 7 = "sha256:".toList && caller.toList.length = 71
  && (caller.toList.drop 7).all fun c => ('0' ≤ c && c ≤ '9') || ('a' ≤ c && c ≤ 'f')

def normalizeCaller (caller : String) : StoreM Unit :=
  if validCaller caller then pure () else throwPool 403 "invalid_caller_identity" 0

def inferenceHoldTimeoutMs (override : Option Int) (fallback : Nat) : StoreM Nat :=
  match override with
  | none => pure fallback
  | some v =>
      if isSafeInteger v && 5000 ≤ v && v ≤ 600000 then pure v.toNat
      else Tx.raise (.other "Invalid inference hold timeout")

/-- `signal?.throwIfAborted()`. -/
def throwIfAborted (aborted : Bool) : StoreM Unit :=
  if aborted then Tx.raise (.other "aborted") else pure ()

/-- `Math.max(1, Math.ceil(ms / 1000))`. -/
def retrySeconds (ms : Nat) : Nat := max 1 ((ms + 999) / 1000)

/-- A member chosen for a new binding, with the enterprise the binding then belongs to. -/
structure PoolMember where
  identity : String
  enterpriseId : String
deriving DecidableEq, Repr

def assertEnterpriseActive (state : Option LifecycleState) : StoreM Unit :=
  if state = some .active then pure () else throwPool 503 "enterprise_draining" 30

namespace Db

/-- The caller's lease row joined with its member. -/
def callerLease (db : Db) (caller : String) : Option Lease :=
  (db.leases.filterMap fun l => if l.callerId = caller then db.leaseRecord l else none).head?

/-- The caller's oldest catalog hold, joined with its member and the member's enterprise. -/
def callerCatalog (db : Db) (caller : String) : Option (PoolMember × LifecycleState) :=
  ((orderBy (fun a b => compare a.assignedAt b.assignedAt)
      (db.catalogHolds.filter fun h => h.callerId = caller)).filterMap fun h => do
    let p ← db.inventory h.memberIdentity
    let e ← db.enterprise p.enterpriseId
    pure (⟨h.memberIdentity, p.enterpriseId⟩, e.state)).head?

/-- No lease row and no catalog hold, live or not, names the member. -/
def unbound (db : Db) (identity : String) : Bool :=
  !(db.leases.any fun l => l.memberIdentity = identity)
  && !(db.catalogHolds.any fun h => h.memberIdentity = identity)

/-- The least recently used leasable member of one enterprise. -/
def idleMember (db : Db) (enterpriseId : String) : Option String :=
  ((orderBy (fun a b => (compare a.updatedAt b.updatedAt).then (compare a.ordinal b.ordinal))
    (db.members.filter fun p => p.enterpriseId = enterpriseId && p.state = .ready
      && p.verifiedAt.isSome && db.usable p.identity && db.unbound p.identity)).map
    (·.identity)).head?

/-- A hold row as `heldRow` joins it: the lease and member the row itself belongs to. -/
structure JoinedHold where
  requestId : String
  leaseId : String
  memberIdentity : String
  callerId : String
  generation : Int
  deadlineAt : Nat
  expiresAt : Nat
deriving DecidableEq, Repr

/-- The hold row a handle points at, if the row belongs to the handle's caller and member. -/
def heldRow (db : Db) (held : HeldLease) : Option JoinedHold :=
  let row : Option JoinedHold := match held.kind with
    | .catalog => (db.catalogHolds.find? fun h =>
        h.requestId = held.requestId && h.leaseId = held.leaseId).map fun h =>
          ⟨h.requestId, h.leaseId, h.memberIdentity, h.callerId, h.generation, h.deadlineAt,
            h.expiresAt⟩
    | .lease => do
        let h ← db.holds.find? fun h => h.requestId = held.requestId && h.leaseId = held.leaseId
        let l ← db.leases.find? fun l => l.leaseId = h.leaseId
        pure ⟨h.requestId, h.leaseId, l.memberIdentity, l.callerId, h.generation, h.deadlineAt,
          h.expiresAt⟩
  row.filter fun r => r.memberIdentity = held.memberIdentity && r.callerId = held.callerId

end Db

section
variable (env : Env)

/-! ## Admission -/

def assertCallerNotCooling (caller : String) : StoreM Unit := do
  let t ← now env
  match ← select fun db => db.catalogCooldowns.find? fun c => c.callerId = caller && t < c.expiresAt with
  | none => pure ()
  | some row =>
      let t' ← now env
      throwPool 429 "member_cooling" (retrySeconds (row.expiresAt - t'))

def assertReady (identity : String) : StoreM Unit := do
  let row ← select fun db => db.inventory identity
  match row with
  | none => throwPool 503 "member_unavailable" 0
  | some member =>
      if member.state = .cooling then do
        let t ← now env
        throwPool 429 "member_cooling" (retrySeconds (member.cooldownUntil - t))
      else if member.state ≠ .ready ∨ member.verifiedAt = none then
        throwPool 503 "member_unavailable" 0
      else do
        let valid ← select fun db => db.usable identity
        if valid then pure () else throwPool 503 "member_unavailable" 0

/-- The first enterprise of the caller's ranking that has an idle member. -/
def firstIdle (db : Db) : List String → Option PoolMember
  | [] => none
  | enterpriseId :: rest =>
      match db.idleMember enterpriseId with
      | some identity => some ⟨identity, enterpriseId⟩
      | none => firstIdle db rest

/-- Parallel discovery and inference of one caller converge on one member: a catalog hold keeps
its member, otherwise the caller's ranking of the active enterprises decides. -/
def availableMember (caller : String) : StoreM PoolMember := do
  match ← select fun db => db.callerCatalog caller with
  | some (member, state) =>
      assertEnterpriseActive state
      pure member
  | none =>
      let rows ← select schedulingEnterprises
      let order ← ofExcept (admissionOrder env.callerHash rows caller)
      match ← select fun db => firstIdle db order with
      | some member => pure member
      | none => throwPool 429 "pool_exhausted" env.options.retryAfterSeconds

def insertLease (caller : String) (member : PoolMember) (t : Nat) : StoreM Lease := do
  let leaseId ← randomUuid env
  let row : LeaseRow :=
    { callerId := caller, memberIdentity := member.identity, leaseId := leaseId
      phase := .provisional, assignedAt := t, lastSuccessAt := none
      expiresAt := t + env.options.provisionalSeconds * 1000 }
  require (fun db => !(db.leases.any fun l => l.callerId = caller
    || l.memberIdentity = member.identity || l.leaseId = leaseId)) "UNIQUE constraint failed"
  exec (.insertLease row)
  recordEvent env { action := "lease_acquired", identity := member.identity, caller := caller,
                    leaseId := leaseId }
  pure { callerId := caller, memberIdentity := member.identity
         enterpriseId := member.enterpriseId, leaseId := leaseId, phase := .provisional
         assignedAt := t, lastSuccessAt := none, expiresAt := row.expiresAt }

def hold (lease : Lease) (kind : HoldKind) (timeoutMs : Nat) : StoreM HeldLease := do
  let requestId ← randomUuid env
  let t ← now env
  let deadline := t + timeoutMs
  match ← select fun db => db.inventory lease.memberIdentity with
  | none => Tx.raise (.other "member row is missing")
  | some member =>
      match kind with
      | .catalog => exec (.insertCatalogHold
          { requestId := requestId, leaseId := lease.leaseId, callerId := lease.callerId
            memberIdentity := lease.memberIdentity, assignedAt := lease.assignedAt
            expiresAt := deadline + holdDrainMs, deadlineAt := deadline
            generation := member.generation })
      | .lease => exec (.insertHold
          { requestId := requestId, leaseId := lease.leaseId
            expiresAt := deadline + holdDrainMs, deadlineAt := deadline
            generation := member.generation })
      pure { lease with requestId := requestId, kind := kind, deadlineAt := deadline }

/-- Reclaim first; an expected rejection rolls back the admission only, not the reclamation. -/
def admission (acquire : StoreM HeldLease) : StoreM HeldLease := do
  let result ← transaction do
    reclaim env
    Tx.tryReturn StoreError.isPool (transaction acquire)
  ofExcept result

/-- The admission body of `acquire`: the caller's own lease, or a new one. -/
def acquireBody (caller : String) (timeoutMs : Nat) : StoreM HeldLease := do
  assertCallerNotCooling env caller
  let t ← now env
  let lease ← match ← select fun db => db.callerLease caller with
    | some lease => do
        assertReady env lease.memberIdentity
        -- an expired lease stays pinned, but admits no endless chain of new requests
        if lease.expiresAt ≤ t then throwPool 503 "lease_draining" 1 else pure lease
    | none => do
        let member ← availableMember env caller
        assertReady env member.identity
        insertLease env caller member t
  hold env lease .lease timeoutMs

def acquire (caller : String) (aborted : Bool) (requestTimeoutMs : Option Int) :
    StoreM HeldLease := do
  normalizeCaller caller
  let timeoutMs ← inferenceHoldTimeoutMs requestTimeoutMs env.options.requestTimeoutMs
  throwIfAborted aborted
  admission env (acquireBody env caller timeoutMs)

/-- The member a catalog admission pins: the caller's lease's, or an available one. -/
def catalogMember (caller : String) : Option Lease → StoreM PoolMember
  | some lease => do
      -- a draining enterprise admits no new catalog hold, not even on an existing lease
      let state ← select fun db => (db.enterprise lease.enterpriseId).map (·.state)
      assertEnterpriseActive state
      pure ⟨lease.memberIdentity, lease.enterpriseId⟩
  | none => availableMember env caller

def acquireCatalogBody (caller : String) : StoreM HeldLease := do
  assertCallerNotCooling env caller
  let existing ← select fun db => db.callerLease caller
  let member ← catalogMember env caller existing
  assertReady env member.identity
  match existing with
  | some lease => do
      let t ← now env
      if lease.expiresAt ≤ t then throwPool 503 "lease_draining" 1
  | none => pure ()
  let t ← now env
  let leaseId ← randomUuid env
  hold env
    { callerId := caller, memberIdentity := member.identity
      enterpriseId := member.enterpriseId, leaseId := leaseId, phase := .provisional
      assignedAt := t, lastSuccessAt := none, expiresAt := t + env.options.requestTimeoutMs }
    .catalog env.options.requestTimeoutMs

/-- Discovery pins one member only for the request and never creates or renews a lease. -/
def acquireCatalog (caller : String) (aborted : Bool) : StoreM HeldLease := do
  normalizeCaller caller
  throwIfAborted aborted
  admission env (acquireCatalogBody env caller)

/-! ## Holds -/

/-- The row of a hold that is still in force: deadline ahead, member untouched since. -/
def currentHold (held : HeldLease) : StoreM (Option Db.JoinedHold) := do
  match ← select fun db => db.heldRow held with
  | none => pure none
  | some row =>
      let t ← now env
      if row.deadlineAt ≤ t then pure none else do
      let t' ← now env
      if row.expiresAt ≤ t' then pure none else do
      select fun db => match db.inventory row.memberIdentity with
        | none => none
        | some member =>
            if member.generation ≠ row.generation
                ∨ ¬(member.state = .ready ∨ member.state = .cooling) then none
            else if db.usable row.memberIdentity then some row else none

/-- False means the runtime must abort. Heartbeats never extend the absolute deadline. -/
def heartbeat (held : HeldLease) : StoreM Bool := do
  let row ← currentHold env held
  pure row.isSome

/-- The renewal of `finish`: it reaches the lease row only while the member is ready. -/
def renewLease (held : HeldLease) : StoreM Unit := do
  let t ← now env
  let leaseSeconds ← select fun db => db.settings.leaseSeconds
  let changed ← select fun db => db.leases.any fun l => l.leaseId = held.leaseId
    && l.callerId = held.callerId && l.memberIdentity = held.memberIdentity
    && db.members.any fun m => m.identity = l.memberIdentity && m.state = .ready
  exec (.renewLease held t (t + leaseSeconds * 1000))
  if changed then
    recordEvent env { action := "lease_renewed", identity := held.memberIdentity,
                      caller := held.callerId, leaseId := held.leaseId }

def finish (held : HeldLease) (success : Bool) : StoreM Unit :=
  transaction do
    match ← select fun db => db.heldRow held with
    | none => pure ()
    | some _ => do
        let current ← if success && held.kind ≠ .catalog then currentHold env held else pure none
        if current.isSome then renewLease env held
        exec (.deleteHold held)
        reclaim env

def release (leaseId : String) : StoreM Unit :=
  transaction do
    match ← select fun db => db.leases.find? fun l => l.leaseId = leaseId with
    | none => throwPool 404 "lease_not_found" 0
    | some lease => do
        let held ← hasHolds env lease.memberIdentity
        if held then throwPool 409 "lease_in_use" 0 else do
        exec (.deleteLease leaseId)
        recordEvent env { action := "lease_released", identity := lease.memberIdentity,
                          caller := lease.callerId, leaseId := lease.leaseId }

def releaseInactive (identity : String) : StoreM Unit :=
  transaction do
    let held ← hasHolds env identity
    if held then pure () else exec (.deleteLeaseOf identity)

/-! ## Reports -/

/-- A `number` argument: a finite one, or `NaN` or an infinity. -/
inductive JsNumber
  | finite (value : ℚ)
  | nonFinite
deriving DecidableEq

/-- `Math.ceil(Math.min(seconds, 2592000)) * 1000`, once the argument is valid. -/
def coolingMs : JsNumber → Option Nat
  | .finite q => if 0 < q then some (⌈min q 2592000⌉.toNat * 1000) else none
  | .nonFinite => none

/-- The fence of a report made with a handle. -/
def reportFence (identity : String) : Option HeldLease → StoreM Bool
  | none => pure true
  | some held =>
      if held.memberIdentity ≠ identity then pure false
      else do
        let row ← currentHold env held
        pure row.isSome

def quarantine (identity code : String) (held : Option HeldLease) : StoreM Bool :=
  transaction do
    let fenced ← reportFence env identity held
    if !fenced then pure false else do
    match ← select fun db => db.inventory identity with
    | none => pure false
    | some member =>
        if member.state = .disabled then pure false else do
        let t ← now env
        let _ ← update env identity
          { state := some .failed, lastError := some (some code), attempts := some 3,
            retryAt := some (t + 300000) } none none
        recordEvent env { action := "member_quarantined", identity := identity,
                          caller := held.map (·.callerId), leaseId := held.map (·.leaseId),
                          detail := code }
        pure true

def cool (identity : String) (seconds : JsNumber) (held : Option HeldLease) : StoreM Bool :=
  transaction do
    match coolingMs seconds with
    | none => throwPool 400 "invalid_cooldown" 0
    | some ms =>
        let fenced ← reportFence env identity held
        if !fenced then pure false else do
        match ← select fun db => db.inventory identity with
        | none => pure false
        | some member =>
            if ¬(member.state = .ready ∨ member.state = .cooling) then pure false else do
            let t ← now env
            let coolUntil := max member.cooldownUntil (t + ms)
            let _ ← update env identity
              { state := some .cooling, cooldownUntil := some coolUntil } none none
            exec (.coolCatalogCallers identity coolUntil)
            recordEvent env { action := "member_cooling", identity := identity,
                              caller := held.map (·.callerId), leaseId := held.map (·.leaseId) }
            pure true

/-- `UPDATE proxy_accounts SET <f> WHERE identity = ? AND <cond>`; whether a row changed. -/
def updateAccount (identity : String) (cond : Credentials → Bool)
    (f : Credentials → Credentials) (t : Nat) : StoreM Bool := do
  match ← select fun db => db.account identity with
  | some a =>
      if cond a.credentials then do
        exec (.writeCredentials identity (f a.credentials) t)
        pure true
      else pure false
  | none => pure false

/-- The conditional invalidation of a token the upstream rejected. -/
def invalidateToken (identity expectedToken : String) (t : Nat) : StoreM Bool :=
  updateAccount identity
    (fun c => c.token = some expectedToken && c.status = .valid)
    (fun c => { c with token := none, status := .expired, attemptId := none,
                       oauthUpdatedAt := some t }) t

def recoverUnauthorized (held : HeldLease) (expectedToken : String) : StoreM Bool :=
  transaction do
    let current ← currentHold env held
    if current.isNone then pure false else do
    let identity := held.memberIdentity
    match ← select fun db => db.inventory identity with
    | none => pure false
    | some member =>
        let t ← now env
        let invalidated ← invalidateToken identity expectedToken t
        if !invalidated then pure false else do
        let windowAt := member.reauthWindowAt
        let resetWindow := windowAt = 0 || reauthWindowMs ≤ t - windowAt
        let count := if resetWindow then 0 else member.reauthCount
        let exhausted := reauthMaxCycles ≤ count
        let attemptId ← randomUuid env
        let _ ← update env identity
          { state := some .failed, stage := some .synced, attemptId := some attemptId,
            oauthAttemptId := some none, taskId := some none, verifiedAt := some none,
            attempts := some (if exhausted then 3 else 0),
            lastError := some (some (if exhausted then "oauth_reauth_limit_reached"
              else "upstream_unauthorized")),
            retryAt := some t } none none
        exec (.setReauth identity (if exhausted then count else count + 1)
          (if resetWindow then t else windowAt))
        recordEvent env
          { action := if exhausted then "oauth_reauth_blocked" else "oauth_reauth_scheduled",
            identity := identity, caller := held.callerId, leaseId := held.leaseId,
            detail := if exhausted then "oauth_reauth_limit_reached"
              else "upstream_unauthorized" }
        pure true

end

end GhcpConsole.Pool
