import GhcpConsole.Accounts.Storage
import GhcpConsole.Lib.Prog
import GhcpConsole.Lib.Tx

/-!
# The callback that saves a token

`PUT /internal/enterprises/:enterpriseId/accounts/:identity/copilot-oauth-token`. The route awaits
the account row, GitHub's answer and the update, and other requests may write the row at each await.
Three logins are involved: the one the row had when it was read, the one the body carries, and the
one the row has when it is updated.
-/

namespace GhcpConsole.Accounts

open Pool (Credentials OauthStatus ProxyAccount)

/-! ## The request -/

/-- The white space and line terminators that `String.prototype.trim` removes. -/
def isTrimmed (c : Char) : Bool :=
  let n := c.toNat
  (9 ≤ n && n ≤ 13) || n == 0x20 || n == 0xA0 || n == 0x1680 || (0x2000 ≤ n && n ≤ 0x200A)
    || n == 0x2028 || n == 0x2029 || n == 0x202F || n == 0x205F || n == 0x3000 || n == 0xFEFF

/-- `!text.trim()`. -/
def isBlank (text : String) : Bool := text.toList.all isTrimmed

/-- The fields of the body that the route reads; `none` where the value is not a string. -/
structure RawTokenBody where
  oauthAttemptId : Option String
  copilotOauthToken : Option String
  ghLogin : Option String
deriving DecidableEq, Repr

structure TokenBody where
  oauthAttemptId : String
  copilotOauthToken : String
  ghLogin : Option String
deriving DecidableEq, Repr

inductive TokenBodyError
  | invalidOauthAttempt | invalidCopilotOauthToken
deriving DecidableEq, Repr

def TokenBodyError.code : TokenBodyError → String
  | .invalidOauthAttempt => "invalid_oauth_attempt"
  | .invalidCopilotOauthToken => "invalid_copilot_oauth_token"

/-- `TOKEN_BODY_MESSAGES`. -/
def TokenBodyError.message : TokenBodyError → String
  | .invalidOauthAttempt => "Request body must include a non-empty oauthAttemptId string."
  | .invalidCopilotOauthToken => "Request body must include a non-empty copilotOauthToken string."

/-- A field that must be a string with something in it. -/
def requiredText (error : TokenBodyError) : Option String → Except TokenBodyError String
  | some text => if isBlank text then .error error else .ok text
  | none => .error error

def readTokenBody (raw : RawTokenBody) : Except TokenBodyError TokenBody := do
  let oauthAttemptId ← requiredText .invalidOauthAttempt raw.oauthAttemptId
  let copilotOauthToken ← requiredText .invalidCopilotOauthToken raw.copilotOauthToken
  return { oauthAttemptId, copilotOauthToken, ghLogin := raw.ghLogin }

/-! ## The answers -/

/-- What the route answers: an account, or a status with an error code and a message. -/
inductive Response
  | account (row : ProxyAccount)
  | error (status : Nat) (code message : String)
deriving DecidableEq, Repr

def TokenBodyError.response (error : TokenBodyError) : Response :=
  .error 400 error.code error.message

def accountNotFound : Response := .error 404 "account_not_found" "Proxy account was not found."

def staleAttempt : Response :=
  .error 409 "stale_oauth_attempt" "This OAuth authorization attempt is no longer active."

def subjectUnavailable : Response :=
  .error 503 "authorization_subject_unavailable"
    "GitHub could not confirm who owns the new token. Retry the callback."

def subjectMismatch : Response :=
  .error 409 "authorization_subject_mismatch"
    "The new token does not belong to this account's GitHub user."

/-! ## Effects -/

structure GithubSubject where
  login : String
  id : String
deriving DecidableEq, Repr

inductive GithubSubjectErrorCode
  | unavailable | invalid
deriving DecidableEq, Repr

/-- What `verifySubject` does: it returns, throws a `GithubSubjectError`, or throws something else. -/
inductive SubjectAnswer
  | subject (subject : GithubSubject)
  | subjectError (code : GithubSubjectErrorCode)
  | thrown (message : String)
deriving DecidableEq, Repr

namespace SaveToken

inductive Effect
  | getAccount (identity : String)
  | verifySubject (enterpriseId token : String)
  | saveCopilotOauthToken (identity oauthAttemptId token : String) (ghLogin : Option String)
  | failCopilotOauthAuthorization (identity oauthAttemptId : String)
deriving DecidableEq, Repr

abbrev Effect.Answer : Effect → Type
  | .getAccount .. | .saveCopilotOauthToken .. => Option ProxyAccount
  | .verifySubject .. => SubjectAnswer
  | .failCopilotOauthAuthorization .. => Bool

abbrev RouteM := Prog Effect Effect.Answer String

/-- The SQLite statements; an update and the read of the row it returns are one turn of the event
loop. -/
def Effect.perform (verifySubject : String → String → SubjectAnswer) (now : Nat) :
    (e : Effect) → Storage → e.Answer × Storage
  | .getAccount identity, st => (st.getAccount identity, st)
  | .verifySubject enterpriseId token, st => (verifySubject enterpriseId token, st)
  | .saveCopilotOauthToken identity attemptId token ghLogin, st =>
      let (st', changed) := st.saveCopilotOauthToken identity attemptId token ghLogin now
      (if changed then st'.getAccount identity else none, st')
  | .failCopilotOauthAuthorization identity attemptId, st =>
      let (st', changed) := st.failCopilotOauthAuthorization identity attemptId now
      (changed, st')

end SaveToken

open SaveToken

/-! ## The route -/

/-- An account row of the enterprise; another enterprise's row is as good as none. -/
def getEnterpriseAccount (enterpriseId identity : String) : RouteM (Option ProxyAccount) := do
  let account ← Prog.call (Effect.getAccount identity)
  return Option.filter (fun row => row.enterpriseId = enterpriseId) account

def isCurrentAttempt (account : ProxyAccount) (oauthAttemptId : String) : Bool :=
  account.credentials.attemptId = some oauthAttemptId && account.credentials.status = .refreshing

inductive SubjectOutcome
  | match | mismatch | unavailable
deriving DecidableEq, Repr

/-- The login the token has to belong to: `account.ghLogin ?? body.ghLogin`. -/
def expectedLogin (account : ProxyAccount) (body : TokenBody) : Option String :=
  account.credentials.ghLogin.or body.ghLogin

section
variable (toLowerCase : String → String)

def compareSubject (expected : Option String) (subject : GithubSubject) : SubjectOutcome :=
  match expected with
  | none => .mismatch
  | some expected =>
      if expected = "" || toLowerCase subject.login ≠ toLowerCase expected then .mismatch else .match

def checkSubject (enterpriseId : String) (account : ProxyAccount) (body : TokenBody) :
    RouteM SubjectOutcome := do
  match ← Prog.call (Effect.verifySubject enterpriseId body.copilotOauthToken) with
  | .subject subject => return compareSubject toLowerCase (expectedLogin account body) subject
  | .subjectError _ => return .unavailable
  | .thrown message => Prog.throw message

/-- A token of another GitHub user fails the attempt. -/
def sendMismatch (account : ProxyAccount) (oauthAttemptId : String) : RouteM Response := do
  let _ ← Prog.call (Effect.failCopilotOauthAuthorization account.identity oauthAttemptId)
  return subjectMismatch

def storeToken (identity : String) (body : TokenBody) : RouteM Response := do
  match ← Prog.call (Effect.saveCopilotOauthToken identity body.oauthAttemptId body.copilotOauthToken
    body.ghLogin) with
  | some saved => return .account saved
  | none => return staleAttempt

def saveToken (enterpriseId identity : String) (raw : RawTokenBody) : RouteM Response :=
  match readTokenBody raw with
  | .error error => return error.response
  | .ok body => do
      match ← getEnterpriseAccount enterpriseId identity with
      | none => return accountNotFound
      | some account =>
          if !isCurrentAttempt account body.oauthAttemptId then return staleAttempt
          else
            match ← checkSubject toLowerCase enterpriseId account body with
            | .match => storeToken identity body
            | .mismatch => sendMismatch account body.oauthAttemptId
            | .unavailable => return subjectUnavailable

end

/-! ## What a success says -/

variable {toLowerCase : String → String} {verifySubject : String → String → SubjectAnswer}
  {now : Nat} {enterpriseId identity : String} {raw : RawTokenBody}

theorem requiredText_ok {error : TokenBodyError} {field : Option String} {text : String}
    (h : requiredText error field = .ok text) : field = some text := by
  unfold requiredText at h
  split at h
  · split at h
    · cases h
    · cases h
      rfl
  · cases h

theorem readTokenBody_ok {body : TokenBody} (h : readTokenBody raw = .ok body) :
    raw.copilotOauthToken = some body.copilotOauthToken ∧ raw.ghLogin = body.ghLogin := by
  obtain ⟨attemptId, -, h⟩ := except_bind_eq_ok.mp h
  obtain ⟨token, htoken, h⟩ := except_bind_eq_ok.mp h
  cases h
  exact ⟨requiredText_ok htoken, rfl⟩

theorem compareSubject_match {expected : Option String} {subject : GithubSubject}
    (h : compareSubject toLowerCase expected subject = .match) :
    ∃ login, expected = some login ∧ toLowerCase subject.login = toLowerCase login := by
  unfold compareSubject at h
  cases expected with
  | none => cases h
  | some login =>
      refine ⟨login, rfl, ?_⟩
      by_contra hne
      simp [hne] at h

/-- An effective save stores the login of the body, or else keeps the login of the row. -/
theorem saveCopilotOauthToken_row {st : Storage} {attemptId token : String}
    {ghLogin : Option String} (h : (st.saveCopilotOauthToken identity attemptId token ghLogin now).2 = true) :
    ∃ row stored, st.rows identity = some row
      ∧ (st.saveCopilotOauthToken identity attemptId token ghLogin now).1.rows identity = some stored
      ∧ stored.credentials.token = some token
      ∧ stored.credentials.ghLogin = ghLogin.or row.credentials.ghLogin := by
  obtain ⟨row, hrow, -⟩ := Storage.update_effective.mp h
  refine ⟨row, _, hrow, (Storage.update_rows h).trans (congrArg _ hrow), ?_⟩
  exact ⟨rfl, rfl⟩

theorem storeToken_account {body : TokenBody} {after : Storage → Storage} {st st' : Storage}
    {stored : ProxyAccount}
    (hrun : (storeToken identity body).run (Effect.perform verifySubject now) [after] st
      = (.ok (.account stored), st')) :
    ∃ committed, (after st).rows identity = some committed ∧ st'.rows identity = some stored
      ∧ stored.credentials.token = some body.copilotOauthToken
      ∧ stored.credentials.ghLogin = body.ghLogin.or committed.credentials.ghLogin := by
  simp only [storeToken, Prog.run_call_bind, Effect.perform, List.headD_cons, List.tail_cons] at hrun
  cases hsaved : ((after st).saveCopilotOauthToken identity body.oauthAttemptId
      body.copilotOauthToken body.ghLogin now).2 with
  | false =>
      simp only [hsaved, Bool.false_eq_true, if_false, Prog.run_pure] at hrun
      cases hrun
  | true =>
      obtain ⟨committed, row, hcommitted, hrow, htoken, hlogin⟩ := saveCopilotOauthToken_row hsaved
      simp only [hsaved, if_true, Storage.getAccount, hrow, Prog.run_pure] at hrun
      cases hrun
      exact ⟨committed, hcommitted, hrow, htoken, hlogin⟩

/-- A success read the row, heard from GitHub that the token is of the login expected of that row,
and then changed the row, whatever it was by then. -/
theorem saveToken_success {before during after : Storage → Storage} {st st' : Storage}
    {stored : ProxyAccount}
    (hrun : (saveToken toLowerCase enterpriseId identity raw).run
      (Effect.perform verifySubject now) [before, during, after] st = (.ok (.account stored), st')) :
    ∃ body subject login read committed,
      readTokenBody raw = .ok body
      ∧ (before st).rows identity = some read
      ∧ verifySubject enterpriseId body.copilotOauthToken = .subject subject
      ∧ expectedLogin read body = some login
      ∧ toLowerCase subject.login = toLowerCase login
      ∧ (after (during (before st))).rows identity = some committed
      ∧ st'.rows identity = some stored
      ∧ stored.credentials.token = some body.copilotOauthToken
      ∧ stored.credentials.ghLogin = body.ghLogin.or committed.credentials.ghLogin := by
  unfold saveToken at hrun
  cases hbody : readTokenBody raw with
  | error e =>
      rw [hbody] at hrun
      cases hrun
  | ok body =>
      rw [hbody] at hrun
      simp only [getEnterpriseAccount, bind_assoc, Prog.run_call_bind, pure_bind, Effect.perform,
        Storage.getAccount, List.headD_cons, List.tail_cons] at hrun
      cases hread : Option.filter (fun row => decide (row.enterpriseId = enterpriseId))
          ((before st).rows identity) with
      | none =>
          rw [hread] at hrun
          cases hrun
      | some read =>
          have hrow := (Option.filter_eq_some_iff.mp hread).1
          simp only [hread] at hrun
          cases hcurrent : isCurrentAttempt read body.oauthAttemptId with
          | false =>
              rw [hcurrent] at hrun
              cases hrun
          | true =>
              simp only [hcurrent, Bool.not_true, Bool.false_eq_true, if_false, checkSubject,
                bind_assoc, Prog.run_call_bind, Effect.perform, List.headD_cons,
                List.tail_cons] at hrun
              cases hsubject : verifySubject enterpriseId body.copilotOauthToken with
              | subjectError code =>
                  rw [hsubject] at hrun
                  cases hrun
              | thrown message =>
                  rw [hsubject] at hrun
                  cases hrun
              | subject subject =>
                  simp only [hsubject, pure_bind] at hrun
                  cases hmatch : compareSubject toLowerCase (expectedLogin read body) subject with
                  | unavailable =>
                      rw [hmatch] at hrun
                      cases hrun
                  | mismatch =>
                      rw [hmatch] at hrun
                      cases hrun
                  | «match» =>
                      rw [hmatch] at hrun
                      obtain ⟨login, hlogin, hlower⟩ := compareSubject_match hmatch
                      obtain ⟨committed, hcommitted, hstored, htoken, hghLogin⟩ :=
                        storeToken_account hrun
                      exact ⟨body, subject, login, read, committed, rfl, hrow, hsubject, hlogin, hlower,
                        hcommitted, hstored, htoken, hghLogin⟩

/-! ## Whose token is stored -/

/-- The login in the row is, ignoring case, the one GitHub gave for the token. -/
def BoundTo (toLowerCase : String → String) (row : ProxyAccount) (login : String) : Prop :=
  ∃ ghLogin, row.credentials.ghLogin = some ghLogin ∧ toLowerCase ghLogin = toLowerCase login

/-- The login that will be stored is the one that was compared: the body's, where it has one and the
row that was read has none or the same, else the row's, if it is still the same at the update. -/
def SameLogin (toLowerCase : String → String) (ghLogin : Option String)
    (read committed : ProxyAccount) : Prop :=
  match ghLogin, read.credentials.ghLogin with
  | some _, none => True
  | some given, some expected => toLowerCase given = toLowerCase expected
  | none, some expected =>
      ∃ current, committed.credentials.ghLogin = some current
        ∧ toLowerCase current = toLowerCase expected
  | none, none => False

/-- Whatever other requests write before the row is read, while GitHub answers and before the update,
a success leaves a token of the login in the row exactly when the login compared is the one stored. -/
theorem saveToken_subject (toLowerCase : String → String)
    (verifySubject : String → String → SubjectAnswer) (now : Nat) (enterpriseId identity : String)
    (raw : RawTokenBody) (before during after : Storage → Storage) (st st' : Storage)
    (stored : ProxyAccount)
    (hrun : (saveToken toLowerCase enterpriseId identity raw).run
      (Effect.perform verifySubject now) [before, during, after] st = (.ok (.account stored), st')) :
    ∃ token subject read committed,
      raw.copilotOauthToken = some token
      ∧ verifySubject enterpriseId token = .subject subject
      ∧ (before st).rows identity = some read
      ∧ (after (during (before st))).rows identity = some committed
      ∧ st'.rows identity = some stored ∧ stored.credentials.token = some token
      ∧ (BoundTo toLowerCase stored subject.login
          ↔ SameLogin toLowerCase raw.ghLogin read committed) := by
  obtain ⟨body, subject, login, read, committed, hbody, hread, hsubject, hexpected, hlower,
    hcommitted, hstored, htoken, hghLogin⟩ := saveToken_success hrun
  obtain ⟨htext, hraw⟩ := readTokenBody_ok hbody
  refine ⟨body.copilotOauthToken, subject, read, committed, htext, hsubject, hread, hcommitted, hstored,
    htoken, ?_⟩
  unfold BoundTo SameLogin
  unfold expectedLogin at hexpected
  rw [hghLogin, hraw, hlower]
  cases hgiven : body.ghLogin with
  | some given =>
      cases hold : read.credentials.ghLogin with
      | none => simp_all
      | some expected => simp_all
  | none =>
      cases hold : read.credentials.ghLogin with
      | none => simp_all
      | some expected => simp_all

namespace Sample

/-- `toLowerCase` on ASCII. -/
def asciiLower (text : String) : String := String.ofList (text.toList.map Char.toLower)

def row : ProxyAccount :=
  { identity := "alice_corp", enterpriseId := "default"
    credentials := { token := none, status := .refreshing, attemptId := some "attempt-1"
                     oauthUpdatedAt := none, ssoUser := "alice", ghLogin := some "Alice" }
    createdAt := 0, updatedAt := 0 }

def storage : Storage := { enterprises := ["default"], rows := fun i => if i = "alice_corp" then some row else none }

def body (ghLogin : String) : RawTokenBody :=
  { oauthAttemptId := some "attempt-1", copilotOauthToken := some "gho_1", ghLogin := some ghLogin }

/-- GitHub says that every token is of `alice`. -/
def github (_ _ : String) : SubjectAnswer := .subject { login := "alice", id := "1" }

def callback (ghLogin : String) : Except String Response × Storage :=
  (saveToken asciiLower "default" "alice_corp" (body ghLogin)).run (Effect.perform github 5)
    [id, id, id] storage

/-- The row after a callback whose body has a login. -/
def saved (ghLogin : String) : ProxyAccount :=
  { row with
    updatedAt := 5
    credentials := { row.credentials with
      token := some "gho_1", status := .valid, attemptId := none, oauthUpdatedAt := some 5
      ghLogin := some ghLogin } }

end Sample

theorem saveToken_subject_same :
    (Sample.callback "ALICE").1 = .ok (.account (Sample.saved "ALICE"))
    ∧ ∃ token subject read committed,
      (Sample.body "ALICE").copilotOauthToken = some token
      ∧ Sample.github "default" token = .subject subject
      ∧ Sample.storage.rows "alice_corp" = some read
      ∧ Sample.storage.rows "alice_corp" = some committed
      ∧ (Sample.callback "ALICE").2.rows "alice_corp" = some (Sample.saved "ALICE")
      ∧ (Sample.saved "ALICE").credentials.token = some token
      ∧ (BoundTo Sample.asciiLower (Sample.saved "ALICE") subject.login
          ↔ SameLogin Sample.asciiLower (Sample.body "ALICE").ghLogin read committed) :=
  ⟨rfl, saveToken_subject Sample.asciiLower Sample.github 5 "default" "alice_corp"
    (Sample.body "ALICE") id id id Sample.storage (Sample.callback "ALICE").2
    (Sample.saved "ALICE") rfl⟩

/-- A body with another login: the token GitHub gives to `alice` is stored in a row of `bob`. -/
theorem saveToken_other_login :
    (Sample.callback "bob").1 = .ok (.account (Sample.saved "bob"))
    ∧ (Sample.callback "bob").2.rows "alice_corp" = some (Sample.saved "bob")
    ∧ Sample.github "default" "gho_1" = .subject { login := "alice", id := "1" }
    ∧ (Sample.saved "bob").credentials.token = some "gho_1"
    ∧ ¬BoundTo Sample.asciiLower (Sample.saved "bob") "alice" := by
  refine ⟨rfl, rfl, rfl, rfl, ?_⟩
  rintro ⟨ghLogin, hlogin, hlower⟩
  cases hlogin
  exact absurd hlower (by decide)

end GhcpConsole.Accounts
