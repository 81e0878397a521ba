import Mathlib.Order.Monotone.Basic
import GhcpConsole.Lib.Tx

/-!
# The user-pool database

The tables of the SQLite user-pool store, one structure a row and one list a table, with the
columns the store reads or writes. Times are milliseconds since the epoch; an ISO text column is
modelled by the millisecond it renders. Text columns with a fixed vocabulary are enumerations.

`World` is what a store operation runs on: the database, plus two counters that a rollback does
not undo, the clock readings and the UUIDs drawn so far, and the process-local selection counter
of `pending`. `Env` fixes what the operations cannot choose: the clock, the UUIDs, the hash and
the checked-in name catalog.
-/

namespace GhcpConsole.Pool

/-! ## Vocabulary -/

inductive MemberState
  | provisioning | ready | cooling | failed | disabled
deriving DecidableEq, Repr

inductive Stage
  | new | ssoCreating | ssoCreated | scimSyncing | scimSynced | seatAssigning | synced
  | oauthStarting | oauthDispatch | oauthWait | warmup | ready
deriving DecidableEq, Repr

/-- `CopilotOauthStatus`. -/
inductive OauthStatus
  | valid | expired | missing | refreshing | failed
deriving DecidableEq, Repr

/-- `EnterpriseLifecycleState`. -/
inductive LifecycleState
  | draft | active | draining
deriving DecidableEq, Repr

inductive Phase
  | provisional | active
deriving DecidableEq, Repr

/-- The table a held lease points into; an absent `kind` counts as `lease`. -/
inductive HoldKind
  | lease | catalog
deriving DecidableEq, Repr

/-! ## Rows -/

/-- The credential columns of a `proxy_accounts` row, the ones the credential fence watches. -/
structure Credentials where
  token : Option String
  status : OauthStatus
  attemptId : Option String
  oauthUpdatedAt : Option Nat
  ssoUser : String
  ghLogin : Option String
deriving DecidableEq, Repr

/-- A `proxy_accounts` row. -/
structure ProxyAccount where
  identity : String
  enterpriseId : String
  credentials : Credentials
  createdAt : Nat
  updatedAt : Nat
deriving DecidableEq, Repr

/-- `copilot_oauth_status = 'valid' AND length(copilot_oauth_token) > 0`. -/
def Credentials.usable (c : Credentials) : Bool :=
  c.status = .valid && match c.token with
    | some t => 0 < t.length
    | none => false

/-- A `user_pool_accounts` row. -/
structure Inventory where
  identity : String
  enterpriseId : String
  ordinal : Nat
  state : MemberState
  stage : Stage
  attemptId : String
  oauthAttemptId : Option String
  ssoCreatedAt : Option String
  taskId : Option String
  attempts : Nat
  retryAt : Nat
  lastError : Option String
  updatedAt : Nat
  cooldownUntil : Nat
  verifiedAt : Option Nat
  generation : Int
  reauthCount : Nat
  reauthWindowAt : Nat
deriving DecidableEq, Repr

/-- A `user_pool_leases` row; both `caller_id` and `member_identity` are unique in the table. -/
structure LeaseRow where
  callerId : String
  memberIdentity : String
  leaseId : String
  phase : Phase
  assignedAt : Nat
  lastSuccessAt : Option Nat
  expiresAt : Nat
deriving DecidableEq, Repr

/-- A `user_pool_holds` row: an inference request on a lease. -/
structure HoldRow where
  requestId : String
  leaseId : String
  expiresAt : Nat
  deadlineAt : Nat
  generation : Int
deriving DecidableEq, Repr

/-- A `user_pool_catalog_holds` row: a discovery request, which pins a member without a lease. -/
structure CatalogHold where
  requestId : String
  leaseId : String
  callerId : String
  memberIdentity : String
  assignedAt : Nat
  expiresAt : Nat
  deadlineAt : Nat
  generation : Int
deriving DecidableEq, Repr

/-- A `user_pool_catalog_cooldowns` row. -/
structure CatalogCooldown where
  callerId : String
  memberIdentity : String
  expiresAt : Nat
deriving DecidableEq, Repr

/-- A `proxy_enterprises` row. -/
structure Enterprise where
  id : String
  state : LifecycleState
  maxAccounts : Nat
  inventoryCount : Nat
  policyVersion : Nat
  profileFingerprint : String
  createdAt : Nat
  updatedAt : Nat
deriving DecidableEq, Repr

/-- The `user_pool_settings` row. -/
structure Settings where
  version : Nat
  idleTarget : Nat
  maxAccounts : Nat
  leaseSeconds : Nat
  paused : Bool
  nextOrdinal : Nat
  owner : Option String
  ownerUntil : Nat
deriving DecidableEq, Repr

/-- A `user_pool_events` row. -/
structure Event where
  id : Nat
  at_ : Nat
  action : String
  identity : Option String
  callerId : Option String
  leaseId : Option String
  detail : Option String
  enterpriseId : Option String
deriving DecidableEq, Repr

structure Db where
  settings : Settings
  enterprises : List Enterprise
  accounts : List ProxyAccount
  members : List Inventory
  leases : List LeaseRow
  holds : List HoldRow
  catalogHolds : List CatalogHold
  catalogCooldowns : List CatalogCooldown
  events : List Event
deriving DecidableEq, Repr

/-! ## What callers hold -/

/-- The `Lease` record: a lease row with its member's enterprise. -/
structure Lease where
  callerId : String
  memberIdentity : String
  enterpriseId : String
  leaseId : String
  phase : Phase
  assignedAt : Nat
  lastSuccessAt : Option Nat
  expiresAt : Nat
deriving DecidableEq, Repr

/-- The `HeldLease` handle an admission returns and completions present again. -/
structure HeldLease extends Lease where
  requestId : String
  kind : HoldKind
  deadlineAt : Nat
deriving DecidableEq, Repr

/-! ## Errors -/

inductive StoreError
  /-- `UserPoolError(status, code, retryAfter)`. -/
  | pool (status : Nat) (code : String) (retryAfter : Nat)
  /-- Any other error: a violated SQL constraint, an aborted signal, a plain `Error`. -/
  | other (message : String)
deriving DecidableEq, Repr

/-- `error instanceof UserPoolError`. -/
def StoreError.isPool : StoreError → Bool
  | .pool .. => true
  | .other _ => false

/-! ## World and environment -/

structure World where
  db : Db
  /-- Clock readings taken so far. -/
  ticks : Nat
  /-- UUIDs drawn so far. -/
  uuids : Nat
  /-- `PendingSelection.selections`, in process memory. -/
  selections : Nat
deriving DecidableEq, Repr

abbrev StoreM (α : Type) : Type := Tx World StoreError α

def nameBaseCount : Nat := 1000
def nameSuffixCount : Nat := 10
/-- `NAME_CAPACITY`, also `ACCOUNT_NAME_CAPACITY`. -/
def nameCapacity : Nat := nameBaseCount * nameSuffixCount

/-- The pattern `^[a-z]+\.[a-z]+$` and the length limit of a catalog name. -/
def validBaseName (name : String) : Bool :=
  let (first, rest) := name.toList.span fun c => 'a' ≤ c && c ≤ 'z'
  !first.isEmpty && name.length ≤ 62 && match rest with
    | '.' :: last => !last.isEmpty && last.all fun c => 'a' ≤ c && c ≤ 'z'
    | _ => false

/-- The checked-in synthetic name catalog, as the load-time check of `names.ts` accepts it. -/
structure NameCatalog where
  names : List String
  length_eq : names.length = nameBaseCount
  nodup : names.Nodup
  valid : ∀ name ∈ names, validBaseName name = true

/-- The parts of `PoolConfig` the store reads. -/
structure PoolConfig where
  idleTarget : Nat
  maxAccounts : Nat
  leaseSeconds : Nat
  provisionalSeconds : Nat
  retryAfterSeconds : Nat
  requestTimeoutMs : Nat
  loginMaxPending : Option Nat
deriving DecidableEq, Repr

/-- Everything a run of the store depends on and does not choose. -/
structure Env where
  /-- The `n`-th clock reading. -/
  clock : Nat → Nat
  clock_mono : Monotone clock
  /-- The `n`-th `randomUUID()`. -/
  uuid : Nat → String
  uuid_inj : Function.Injective uuid
  /-- `createHash('sha256')` of `caller\0id`, in hex. -/
  callerHash : String → String → String
  catalog : NameCatalog
  options : PoolConfig

/-- `this.now()`: one more clock reading. -/
def now (env : Env) : StoreM Nat := fun w =>
  (.ok (env.clock w.ticks), { w with ticks := w.ticks + 1 })

/-- `randomUUID()`. -/
def randomUuid (env : Env) : StoreM String := fun w =>
  (.ok (env.uuid w.uuids), { w with uuids := w.uuids + 1 })

/-- `SELECT`: a read of the database. -/
def select {α : Type} (q : Db → α) : StoreM α := Tx.read fun w => q w.db

/-- `throw new UserPoolError(status, code, retryAfter)`. -/
def throwPool {α : Type} (status : Nat) (code : String) (retryAfter : Nat) : StoreM α :=
  Tx.raise (.pool status code retryAfter)

/-- What a rollback brings back: the database, but neither time nor UUIDs. -/
def World.rollback (old new : World) : World := { new with db := old.db }

/-- `this.db.transaction(body)()`: a savepoint when nested, the unit of work otherwise. -/
def transaction {α : Type} (body : StoreM α) : StoreM α := Tx.transaction World.rollback body

@[simp] theorem now_run (env : Env) (w : World) :
    now env w = (.ok (env.clock w.ticks), { w with ticks := w.ticks + 1 }) := rfl

@[simp] theorem randomUuid_run (env : Env) (w : World) :
    randomUuid env w = (.ok (env.uuid w.uuids), { w with uuids := w.uuids + 1 }) := rfl

@[simp] theorem select_run {α : Type} (q : Db → α) (w : World) :
    select q w = (.ok (q w.db), w) := rfl

@[simp] theorem throwPool_run {α : Type} (status : Nat) (code : String) (retryAfter : Nat)
    (w : World) : (throwPool status code retryAfter : StoreM α) w
      = (.error (.pool status code retryAfter), w) := rfl

end GhcpConsole.Pool
