import GhcpConsole.Pool.Provisioning

/-!
# Operations and runs of the store

One constructor for each public method of `UserPoolStore` that reads or writes the tables on
behalf of a caller, an operator or a worker, and for the writes that reach `proxy_accounts`
from outside the store. A run is a list of operations executed one after the other, each an
immediate SQLite transaction; whatever an operation throws, the run goes on from the state it
left.
-/

namespace GhcpConsole.Pool

/-- A write of `proxy_accounts` by the rest of the Proxy: OAuth callbacks, imports, links, account
creation and deletion. -/
inductive ExternalWrite
  /-- Any new values of the credential columns of a row. -/
  | credentials (identity : String) (credentials : Credentials)
  | insert (row : ProxyAccount)
  | delete (identity : String)
deriving DecidableEq, Repr

inductive Op
  | acquire (caller : String) (aborted : Bool) (requestTimeoutMs : Option Int)
  | acquireCatalog (caller : String) (aborted : Bool)
  | heartbeat (held : HeldLease)
  | finish (held : HeldLease) (success : Bool)
  | release (leaseId : String)
  | releaseInactive (identity : String)
  | reclaim
  | cool (identity : String) (seconds : JsNumber) (held : Option HeldLease)
  | quarantine (identity code : String) (held : Option HeldLease)
  | recoverUnauthorized (held : HeldLease) (expectedToken : String)
  | update (identity : String) (patch : Patch) (expected : Option InventoryFence)
      (owner : Option String)
  | fail (identity code : String) (expected : Option InventoryFence) (owner : Option String)
      (terminal : Bool)
  | disable (identity : String)
  | retry (identity : String)
  | pending (excluded : List String)
  | reserve (eligible : List String)
  | reserveDeficit (owner : String) (eligible : List String)
  | mutateWorkerCredential (identity : String) (fence : WorkerCredentialFence) (owner : String)
      (mutation : WorkerCredentialMutation)
  | claimLoginDispatch (identity : String) (fence : WorkerCredentialFence) (owner : String)
      (limit : Int)
  | releaseLoginReservation (identity : String) (fence : Inventory) (owner : String)
      (outcome : LoginReservationOutcome)
  | claimOwner (owner : String)
  | renewOwner (owner : String)
  | releaseOwner (owner : String)
  | updateSettings (version : Int) (patch : SettingsPatch)
  | updateEnterprisePolicy (id : String) (expectedVersion : Int) (patch : PolicyPatch)
  | correctInventoryDrift
  | event (fields : EventFields)
  | external (write : ExternalWrite)

/-- What an operation answers. -/
inductive Reply
  | done
  | answered (success : Bool)
  | held (held : HeldLease)
  | row (row : Option Inventory)
  | count (n : Nat)
deriving DecidableEq, Repr

section
variable (env : Env)

/-- The schema's reaction to an external write: primary and foreign keys hold, a pool member's
account cannot be deleted, and a credential change fires the fence. -/
def externalWrite : ExternalWrite → StoreM Unit
  | .credentials identity c => do
      let t ← now env
      let known ← select fun db => (db.account identity).isSome
      if known then exec (.writeCredentials identity c t)
  | .insert row => do
      require (fun db => (db.account row.identity).isNone && (db.enterprise row.enterpriseId).isSome)
        "constraint failed: proxy_accounts"
      exec (.insertAccount row)
  | .delete identity => do
      require (fun db => (db.inventory identity).isNone) "FOREIGN KEY constraint failed"
      exec (.deleteAccount identity)

def Op.exec : Op → StoreM Reply
  | .acquire caller aborted timeoutMs => do
      let held ← Pool.acquire env caller aborted timeoutMs
      pure (.held held)
  | .acquireCatalog caller aborted => do
      let held ← Pool.acquireCatalog env caller aborted
      pure (.held held)
  | .heartbeat held => do
      let ok ← Pool.heartbeat env held
      pure (.answered ok)
  | .finish held success => do
      Pool.finish env held success
      pure .done
  | .release leaseId => do
      Pool.release env leaseId
      pure .done
  | .releaseInactive identity => do
      Pool.releaseInactive env identity
      pure .done
  | .reclaim => do
      Pool.reclaim env
      pure .done
  | .cool identity seconds held => do
      let ok ← Pool.cool env identity seconds held
      pure (.answered ok)
  | .quarantine identity code held => do
      let ok ← Pool.quarantine env identity code held
      pure (.answered ok)
  | .recoverUnauthorized held token => do
      let ok ← Pool.recoverUnauthorized env held token
      pure (.answered ok)
  | .update identity patch expected owner => do
      let ok ← Pool.update env identity patch expected owner
      pure (.answered ok)
  | .fail identity code expected owner terminal => do
      Pool.fail env identity code expected owner terminal
      pure .done
  | .disable identity => do
      Pool.disable env identity
      pure .done
  | .retry identity => do
      Pool.retry env identity
      pure .done
  | .pending excluded => do
      let row ← Pool.pending env excluded
      pure (.row row)
  | .reserve eligible => do
      let row ← Pool.reserve env eligible
      pure (.row row)
  | .reserveDeficit owner eligible => do
      let n ← Pool.reserveDeficit env owner eligible
      pure (.count n)
  | .mutateWorkerCredential identity fence owner mutation => do
      let ok ← Pool.mutateWorkerCredential env identity fence owner mutation
      pure (.answered ok)
  | .claimLoginDispatch identity fence owner limit => do
      let ok ← Pool.claimLoginDispatch env identity fence owner limit
      pure (.answered ok)
  | .releaseLoginReservation identity fence owner outcome => do
      let ok ← Pool.releaseLoginReservation env identity fence owner outcome
      pure (.answered ok)
  | .claimOwner owner => do
      let ok ← Pool.claimOwner env owner
      pure (.answered ok)
  | .renewOwner owner => do
      let ok ← Pool.renewOwner env owner
      pure (.answered ok)
  | .releaseOwner owner => do
      Pool.releaseOwner owner
      pure .done
  | .updateSettings version patch => do
      let _ ← Pool.updateSettings env version patch
      pure .done
  | .updateEnterprisePolicy id version patch => do
      let _ ← Pool.updateEnterprisePolicy env id version patch
      pure .done
  | .correctInventoryDrift => do
      let n ← Pool.correctInventoryDrift env
      pure (.count n)
  | .event fields => do
      Pool.recordEvent env fields
      pure .done
  | .external write => do
      externalWrite env write
      pure .done

/-- The state an operation leaves, whether it returns or throws. -/
def step (w : World) (op : Op) : World := (op.exec env w).2

/-- The state after a run. -/
def run (w : World) (ops : List Op) : World := ops.foldl (step env) w

@[simp] theorem run_nil (w : World) : run env w [] = w := rfl

@[simp] theorem run_cons (w : World) (op : Op) (ops : List Op) :
    run env w (op :: ops) = run env (step env w op) ops := rfl

theorem run_append (w : World) (ops ops' : List Op) :
    run env w (ops ++ ops') = run env (run env w ops) ops' := List.foldl_append

end

/-! ## A sample pool

A catalog, an environment and a pool with one enterprise and two ready members, for runs on
concrete inputs. -/

namespace Sample

def letter (d : Nat) : Char := Char.ofNat ('a'.toNat + d)

theorem letter_range : ∀ d < 10, ('a' ≤ letter d && letter d ≤ 'z') = true := by decide

theorem letter_inj : ∀ d < 10, ∀ e < 10, letter d = letter e → d = e := by decide

/-- A letter for each digit of `n`. -/
def name (n : Nat) : String :=
  String.ofList [letter (n / 100), letter (n / 10 % 10), letter (n % 10), '.', 'a']

theorem name_valid {n : Nat} (h : n < 1000) : validBaseName (name n) = true := by
  have h₁ := letter_range (n / 100) (by omega)
  have h₂ := letter_range (n / 10 % 10) (by omega)
  have h₃ := letter_range (n % 10) (by omega)
  have hlen : 1 + (1 + (1 + ".a".length)) ≤ 62 := by decide
  simp [validBaseName, name, List.span, List.span.loop] at *
  simp [h₁, h₂, h₃, hlen]

theorem name_inj {m n : Nat} (hm : m < 1000) (hn : n < 1000) (h : name m = name n) : m = n := by
  have h := String.ofList_inj.mp h
  simp only [List.cons.injEq, and_true] at h
  have h₁ := letter_inj _ (by omega) _ (by omega) h.1
  have h₂ := letter_inj _ (by omega) _ (by omega) h.2.1
  have h₃ := letter_inj _ (by omega) _ (by omega) h.2.2
  omega

def catalog : NameCatalog where
  names := (List.range 1000).map name
  length_eq := by simp [nameBaseCount]
  nodup := List.Nodup.map_on (fun _ hm _ hn h =>
    name_inj (List.mem_range.mp hm) (List.mem_range.mp hn) h) List.nodup_range
  valid := by
    intro _ h
    obtain ⟨n, hn, rfl⟩ := List.mem_map.mp h
    exact name_valid (List.mem_range.mp hn)

/-- A clock that moves one second a reading. -/
def env : Env where
  clock n := 1000000 + n * 1000
  clock_mono := fun m n h => by dsimp only; omega
  uuid n := String.ofList (List.replicate n 'u')
  uuid_inj := fun m n h => by simpa using congrArg List.length (String.ofList_inj.mp h)
  callerHash caller id := caller ++ id
  catalog := catalog
  options := { idleTarget := 2, maxAccounts := 10, leaseSeconds := 3600, provisionalSeconds := 60,
               retryAfterSeconds := 5, requestTimeoutMs := 60000, loginMaxPending := none }

def account (identity : String) : ProxyAccount where
  identity := identity
  enterpriseId := "main"
  credentials := { token := some "token", status := .valid, attemptId := none
                   oauthUpdatedAt := some 1, ssoUser := identity, ghLogin := some identity }
  createdAt := 0
  updatedAt := 0

def member (identity : String) (ordinal : Nat) : Inventory where
  identity := identity
  enterpriseId := "main"
  ordinal := ordinal
  state := .ready
  stage := .ready
  attemptId := "attempt"
  oauthAttemptId := none
  ssoCreatedAt := none
  taskId := none
  attempts := 0
  retryAt := 0
  lastError := none
  updatedAt := 0
  cooldownUntil := 0
  verifiedAt := some 1
  generation := 0
  reauthCount := 0
  reauthWindowAt := 0

def db : Db where
  settings := { version := 1, idleTarget := 2, maxAccounts := 10, leaseSeconds := 3600
                paused := false, nextOrdinal := 2, owner := none, ownerUntil := 0 }
  enterprises := [{ id := "main", state := .active, maxAccounts := 10, inventoryCount := 2
                    policyVersion := 1, profileFingerprint := "", createdAt := 0, updatedAt := 0 }]
  accounts := [account "aaa.a00", account "aab.a00"]
  members := [member "aaa.a00" 0, member "aab.a00" 1]
  leases := []
  holds := []
  catalogHolds := []
  catalogCooldowns := []
  events := []

def world : World where
  db := db
  ticks := 0
  uuids := 0
  selections := 0

/-- A normalized caller. -/
def caller : String := "sha256:" ++ String.ofList (List.replicate 64 '0')

end Sample

end GhcpConsole.Pool
