import GhcpConsole.Pool.Schema

/-!
# Proxy accounts

The statements that write `proxy_accounts`, as functions of the table. The primary key is the
identity and every statement names one, so the table is a map from identities to rows. An update
answers whether it has changed a row (`changes > 0`); a guard in its `WHERE` clause that does not
hold leaves the table as it was.
-/

namespace GhcpConsole.Accounts

open Pool (Credentials OauthStatus ProxyAccount)

structure Storage where
  /-- The ids in `proxy_enterprises`, which `enterprise_id` refers to. -/
  enterprises : List String
  rows : String → Option ProxyAccount

namespace Storage

def getAccount (st : Storage) (identity : String) : Option ProxyAccount := st.rows identity

def put (st : Storage) (identity : String) (row : Option ProxyAccount) : Storage :=
  { st with rows := fun i => if i = identity then row else st.rows i }

/-- `UPDATE proxy_accounts SET ... WHERE identity = ? AND <guard>`. -/
def update (st : Storage) (identity : String) (guard : ProxyAccount → Bool)
    (set : ProxyAccount → ProxyAccount) : Storage × Bool :=
  match st.rows identity with
  | some row => if guard row then (st.put identity (some (set row)), true) else (st, false)
  | none => (st, false)

/-- `COALESCE(a, b)`. -/
def coalesce (a b : Option String) : Option String := a.or b

/-- The columns `INSERT ... ON CONFLICT(identity)` is given. -/
structure AccountInput where
  identity : String
  enterpriseId : String
  ssoUser : String
  ghLogin : Option String
deriving DecidableEq, Repr

/-- The trigger `proxy_accounts_enterprise_immutable`: an upsert that would give a row another enterprise is
aborted. -/
def enterpriseImmutable (st : Storage) (input : AccountInput) : Bool :=
  (st.rows input.identity).any (·.enterpriseId ≠ input.enterpriseId)

/-- `createAccount`: an upsert of the mapping; the credential of an existing row stays. -/
def createAccount (st : Storage) (input : AccountInput) (status : OauthStatus)
    (attemptId : Option String) (now : Nat) : Storage × Bool :=
  if !st.enterprises.contains input.enterpriseId || st.enterpriseImmutable input then (st, false)
  else
    let row : ProxyAccount := match st.rows input.identity with
      | some row =>
          { row with
            enterpriseId := input.enterpriseId, updatedAt := now
            credentials := { row.credentials with
              ssoUser := input.ssoUser, ghLogin := coalesce input.ghLogin row.credentials.ghLogin } }
      | none =>
          { identity := input.identity, enterpriseId := input.enterpriseId
            credentials := { token := none, status := status, attemptId := attemptId
                             oauthUpdatedAt := none, ssoUser := input.ssoUser, ghLogin := input.ghLogin }
            createdAt := now, updatedAt := now }
    (st.put input.identity (some row), true)

/-- `importCopilotOauthToken`: an upsert that brings a valid token and ends any attempt. -/
def importCopilotOauthToken (st : Storage) (input : AccountInput) (token : String) (now : Nat) :
    Storage × Bool :=
  if !st.enterprises.contains input.enterpriseId || st.enterpriseImmutable input then (st, false)
  else
    let (ghLogin, createdAt) := match st.rows input.identity with
      | some row => (coalesce input.ghLogin row.credentials.ghLogin, row.createdAt)
      | none => (input.ghLogin, now)
    (st.put input.identity (some
      { identity := input.identity, enterpriseId := input.enterpriseId
        credentials := { token := some token, status := .valid, attemptId := none
                         oauthUpdatedAt := some now, ssoUser := input.ssoUser, ghLogin := ghLogin }
        createdAt := createdAt, updatedAt := now }), true)

/-- `saveCopilotOauthToken`; the status guard makes "cancel wins". -/
def saveCopilotOauthToken (st : Storage) (identity attemptId token : String)
    (ghLogin : Option String) (now : Nat) : Storage × Bool :=
  st.update identity
    (fun row => row.credentials.attemptId = some attemptId && row.credentials.status = .refreshing)
    fun row => { row with
      updatedAt := now
      credentials := { row.credentials with
        token := some token, ghLogin := coalesce ghLogin row.credentials.ghLogin
        status := .valid, oauthUpdatedAt := some now, attemptId := none } }

/-- `beginCopilotOauthAuthorization`; without an expected attempt id there is no guard on it. -/
def beginCopilotOauthAuthorization (st : Storage) (identity attemptId : String)
    (expectedAttemptId : Option (Option String)) (now : Nat) : Storage × Bool :=
  st.update identity
    (fun row => match expectedAttemptId with
      | none => true
      | some expected => row.credentials.attemptId = expected)
    fun row => { row with
      updatedAt := now
      credentials := { row.credentials with status := .refreshing, attemptId := some attemptId } }

def failCopilotOauthAuthorization (st : Storage) (identity attemptId : String) (now : Nat) :
    Storage × Bool :=
  st.update identity (fun row => row.credentials.attemptId = some attemptId)
    fun row => { row with
      updatedAt := now, credentials := { row.credentials with status := .failed } }

/-- What an invalidated token becomes. -/
inductive Retired
  | expired | failed
deriving DecidableEq, Repr

def Retired.status : Retired → OauthStatus
  | .expired => .expired
  | .failed => .failed

def invalidateCopilotOauthToken (st : Storage) (identity expectedToken : String) (status : Retired)
    (now : Nat) : Storage × Bool :=
  st.update identity
    (fun row => row.credentials.token = some expectedToken && row.credentials.status = .valid)
    fun row => { row with
      updatedAt := now
      credentials := { row.credentials with
        token := none, status := status.status, oauthUpdatedAt := some now, attemptId := none } }

/-- `DELETE FROM proxy_accounts WHERE identity = ?`. -/
def deleteAccount (st : Storage) (identity : String) : Storage × Bool :=
  (st.put identity none, (st.rows identity).isSome)

/-! ## Rows -/

@[simp] theorem put_same (st : Storage) (identity : String) (row : Option ProxyAccount) :
    (st.put identity row).rows identity = row := by
  simp [put]

theorem put_other (st : Storage) {identity i : String} (row : Option ProxyAccount) (h : i ≠ identity) :
    (st.put identity row).rows i = st.rows i := by
  simp [put, h]

variable {st : Storage} {identity i : String} {guard : ProxyAccount → Bool}
  {set : ProxyAccount → ProxyAccount}

/-- An update takes effect on the row of its identity exactly when the row passes the guard. -/
theorem update_effective :
    (st.update identity guard set).2 = true
      ↔ ∃ row, st.rows identity = some row ∧ guard row = true := by
  unfold update
  cases hrow : st.rows identity with
  | none => simp
  | some row => cases hg : guard row <;> simp [hg]

theorem update_refused (h : (st.update identity guard set).2 = false) :
    (st.update identity guard set).1 = st := by
  unfold update at *
  cases hrow : st.rows identity with
  | none => rfl
  | some row => cases hg : guard row <;> simp [hrow, hg] at h ⊢

theorem update_rows (h : (st.update identity guard set).2 = true) :
    (st.update identity guard set).1.rows identity = (st.rows identity).map set := by
  obtain ⟨row, hrow, hg⟩ := update_effective.mp h
  simp [update, hrow, hg]

theorem update_other (h : i ≠ identity) :
    (st.update identity guard set).1.rows i = st.rows i := by
  unfold update
  cases st.rows identity with
  | none => rfl
  | some row =>
      cases hg : guard row with
      | false => simp [hg]
      | true => simpa [hg] using put_other st (some (set row)) h

/-- An import is refused for an unknown enterprise and for a row of another one; else it leaves a valid token and
no attempt. -/
theorem importCopilotOauthToken_cases (st : Storage) (input : AccountInput) (token : String)
    (now : Nat) :
    st.importCopilotOauthToken input token now = (st, false)
    ∨ ∃ row : ProxyAccount, st.importCopilotOauthToken input token now
        = (st.put input.identity (some row), true)
      ∧ row.credentials.attemptId = none ∧ row.credentials.status = .valid := by
  unfold importCopilotOauthToken
  split
  · exact .inl rfl
  · exact .inr ⟨_, rfl, rfl, rfl⟩

end Storage

end GhcpConsole.Accounts
