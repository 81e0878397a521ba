import GhcpConsole.Pool.Ranking
import GhcpConsole.Pool.Tables

/-!
# Scheduling: admission order, replenishment, settings and policy edits

`scheduling.ts` as functions of the tables. Request bodies reach the two validators as JSON, so
a field of a patch is absent, present with a value outside its type, or present with a value.
-/

namespace GhcpConsole.Pool

/-- A field of a JSON body: absent, malformed (`some none`), or a value. -/
abbrev JsonField (α : Type) : Type := Option (Option α)

/-- `MANUAL_ERRORS`: errors a worker cannot resolve by retrying. -/
def manualErrors : List String :=
  ["sso_creation_ambiguous", "sso_name_conflict", "oauth_dispatch_ambiguous",
    "oauth_task_cancelled_unconfirmed"]

def isManual (lastError : Option String) : Bool := manualErrors.contains (lastError.getD "")

def isActive (e : Enterprise) : Bool := e.state = .active

/-! ## Supply -/

/-- `READY_IDLE_SQL`: leasable at `now`, counting what an admission would first reclaim. -/
def readyIdle (db : Db) (now : Nat) (p : Inventory) (a : ProxyAccount) : Bool :=
  (p.state = .ready || (p.state = .cooling && p.cooldownUntil ≤ now))
  && p.verifiedAt.isSome && a.credentials.usable
  && !(db.leases.any fun l => l.memberIdentity = p.identity
        && (now < l.expiresAt || db.holds.any fun h => h.leaseId = l.leaseId && now < h.expiresAt))
  && !(db.catalogHolds.any fun c => c.memberIdentity = p.identity && now < c.expiresAt)

/-- `IN_FLIGHT_SQL`: supply that will become idle without a new reservation. -/
def inFlight (p : Inventory) : Bool :=
  p.state = .provisioning
  || (p.state = .failed && p.attempts < 3 && !isManual p.lastError)
  || ((p.state = .ready || p.state = .cooling) && p.verifiedAt.isNone)

/-- The member belongs to an `active` enterprise (the join with `proxy_enterprises`). -/
def inActiveEnterprise (db : Db) (p : Inventory) : Bool :=
  match db.enterprise p.enterpriseId with
  | some e => isActive e
  | none => false

structure PoolSupply where
  readyIdle : Nat
  inFlight : Nat
deriving DecidableEq, Repr

/-- `poolSupplyQuery(now)`: I and P of the `active` enterprises. -/
def poolSupply (db : Db) (now : Nat) : PoolSupply where
  readyIdle := db.members.countP fun p => inActiveEnterprise db p &&
    match db.account p.identity with
    | some a => readyIdle db now p a
    | none => false
  inFlight := db.members.countP fun p => inActiveEnterprise db p &&
    (db.account p.identity).isSome && inFlight p

/-! ## Rankings over the tables -/

/-- `SCHEDULING_ENTERPRISE_SQL`: every enterprise, ordered by id. -/
def schedulingEnterprises (db : Db) : List Enterprise :=
  db.enterprises.insertionSort fun a b => compareText a.id b.id ≠ .gt

theorem mem_schedulingEnterprises {db : Db} {e : Enterprise} :
    e ∈ schedulingEnterprises db ↔ e ∈ db.enterprises := List.mem_insertionSort _

/-- Active enterprises form C and N; only eligible ones below their cap are candidates. -/
def creationEnterprises (rows : List Enterprise) (eligible : List String) : List PoolEnterprise :=
  (rows.filter isActive).map fun row =>
    ⟨row.id, row.maxAccounts, row.inventoryCount, eligible.contains row.id⟩

def planReplenishment (rows : List Enterprise) (eligible : List String) (supply : PoolSupply)
    (settings : Settings) (ordinal limit : Nat) : Except StoreError (List String) :=
  let deficit := replenishmentDeficit settings.idleTarget supply.readyIdle supply.inFlight
    settings.paused
  if deficit = 0 then .ok []
  else planCreations (creationEnterprises rows eligible) ordinal (min deficit limit)

def admissionOrder (callerHash : String → String → String) (rows : List Enterprise)
    (caller : String) : Except StoreError (List String) :=
  rankEnterprisesForAdmission callerHash
    ((rows.filter isActive).map fun row => ⟨row.id, row.maxAccounts, row.inventoryCount, true⟩)
    caller

/-- `ENTERPRISE_ID_PATTERN`: `^[a-z][a-z0-9-]{0,30}[a-z0-9]$`. -/
def isEnterpriseId (id : String) : Bool :=
  let chars := id.toList
  let lower := fun c : Char => 'a' ≤ c && c ≤ 'z'
  let digit := fun c : Char => '0' ≤ c && c ≤ '9'
  2 ≤ chars.length && chars.length ≤ 32
  && (match chars.head? with | some c => lower c | none => false)
  && (match chars.getLast? with | some c => lower c || digit c | none => false)
  && chars.all fun c => lower c || digit c || c = '-'

/-- `eligibleEnterprises`: validates the caller's list. -/
def eligibleEnterprises (ids : List String) : Except StoreError (List String) :=
  if ids.any fun id => !isEnterpriseId id then
    .error (.pool 400 "invalid_eligible_enterprises" 0)
  else .ok ids

/-! ## Settings and policy edits -/

/-- `Number.isSafeInteger`. -/
def isSafeInteger (v : Int) : Bool := -(2 ^ 53) < v && v < 2 ^ 53

structure SettingsPatch where
  /-- The body has a `max_accounts` key. -/
  maxAccounts : Bool := false
  /-- The body has a key outside `SETTING_KEYS` other than `max_accounts`. -/
  unknownKey : Bool := false
  idleTarget : JsonField Nat := none
  leaseSeconds : JsonField Nat := none
  paused : JsonField Bool := none
deriving DecidableEq, Repr

structure SettingsValues where
  idleTarget : Nat
  leaseSeconds : Nat
  paused : Bool
deriving DecidableEq, Repr

def maxLeaseSeconds : Nat := 2592000

def nextSettings (version : Int) (current : Settings) (patch : SettingsPatch) :
    Except StoreError SettingsValues :=
  if patch.maxAccounts then .error (.pool 409 "use_enterprise_cap" 0)
  else if !isSafeInteger version || patch.unknownKey then
    .error (.pool 400 "invalid_pool_settings" 0)
  else if version ≠ current.version then .error (.pool 409 "settings_version_conflict" 0)
  else match patch.idleTarget.getD (some current.idleTarget),
      patch.leaseSeconds.getD (some current.leaseSeconds),
      patch.paused.getD (some current.paused) with
    | some idleTarget, some leaseSeconds, some paused =>
        if idleTarget ≤ nameCapacity ∧ 60 ≤ leaseSeconds ∧ leaseSeconds ≤ maxLeaseSeconds then
          .ok ⟨idleTarget, leaseSeconds, paused⟩
        else .error (.pool 400 "invalid_pool_settings" 0)
    | _, _, _ => .error (.pool 400 "invalid_pool_settings" 0)

structure PolicyPatch where
  /-- The body has a key outside `POLICY_KEYS`. -/
  unknownKey : Bool := false
  maxAccounts : JsonField Int := none
  state : JsonField LifecycleState := none
deriving DecidableEq, Repr

structure PolicyChange where
  maxAccounts : Nat
  state : LifecycleState
deriving DecidableEq, Repr

def isCap (value : Int) : Bool := isSafeInteger value && 1 ≤ value && value ≤ nameCapacity

/-- The tests of `parsePolicyPatch`. -/
def validPolicyPatch (expectedVersion : Int) (patch : PolicyPatch) : Bool :=
  isSafeInteger expectedVersion
  && (patch.unknownKey || patch.maxAccounts.isSome || patch.state.isSome)
  && !patch.unknownKey
  && (match patch.maxAccounts with
      | none => true
      | some none => false
      | some (some v) => isCap v)
  && patch.state ≠ some none

/-- `TRANSITIONS`. -/
def allowedTransition : LifecycleState → LifecycleState → Bool
  | .draft, .active | .active, .draining | .draining, .active => true
  | _, _ => false

/-- `nextPolicy`: the caps of the other rows plus the new one must fit the name catalog. -/
def nextPolicy (current : Enterprise) (all : List Enterprise) (expectedVersion : Int)
    (patch : PolicyPatch) : Except StoreError PolicyChange :=
  if !validPolicyPatch expectedVersion patch then .error (.pool 400 "invalid_pool_policy" 0)
  else if expectedVersion ≠ current.policyVersion then
    .error (.pool 409 "policy_version_conflict" 0)
  else
    let maxAccounts := match patch.maxAccounts with
      | some (some v) => v.toNat
      | _ => current.maxAccounts
    let state := match patch.state with
      | some (some s) => s
      | _ => current.state
    if state ≠ current.state ∧ !allowedTransition current.state state then
      .error (.pool 409 "invalid_state_transition" 0)
    else if nameCapacity <
        maxAccounts + ((all.filter fun row => row.id ≠ current.id).map (·.maxAccounts)).sum then
      .error (.pool 409 "name_capacity_exceeded" 0)
    else .ok ⟨maxAccounts, state⟩

end GhcpConsole.Pool
