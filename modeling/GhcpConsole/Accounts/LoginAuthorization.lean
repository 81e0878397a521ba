import GhcpConsole.Accounts.Attempts
import GhcpConsole.Lib.Prog
import GhcpConsole.Login.Queue

/-!
# Preparing a login authorization

`prepareLoginAuthorization` reads the account row, checks it, may ask SSO for the default password,
and then begins the attempt with a guard on one column. Other requests write the row at each await.
The guard sees a write only while the column keeps another value: what puts the expected value back
goes unnoticed.
-/

namespace GhcpConsole.Accounts

open Pool (Credentials OauthStatus ProxyAccount)
open Login (LoginTaskRequest SsoType)
open Storage

/-! ## The function -/

/-- `LoginCredentials`. -/
inductive LoginCredentials
  | default
  | override (ssoPassword : String)
deriving DecidableEq, Repr

/-- Which attempt an authorization may replace. -/
inductive Supersedes
  /-- `force: true`. -/
  | any
  /-- `previousAttemptId`. -/
  | attempt (previousAttemptId : Option String)
deriving DecidableEq, Repr

structure PrepareLoginAuthorizationInput where
  credentials : LoginCredentials
  enterpriseId : String
  ssoType : SsoType
  ssoUser : String
  ghLogin : String
  supersedes : Supersedes
deriving DecidableEq, Repr

inductive PrepareError
  /-- `HttpApiError(status, code, message)`. -/
  | http (status : Nat) (code message : String)
  /-- What the password request threw. -/
  | thrown (message : String)
deriving DecidableEq, Repr

def authorizationConflict : PrepareError :=
  .http 409 "authorization_conflict"
    "Another authorization changed this account. Refresh before retrying."

/-- The part of `assertAuthorizable` under `!input.force`. -/
def assertSuperseded (account : ProxyAccount) : Supersedes → Except PrepareError Unit
  | .any => .ok ()
  | .attempt previousAttemptId =>
      if account.credentials.status = .valid then
        .error (.http 409 "authorization_not_needed"
          "The account is already authorized. Reauthorize it from the account if a new token is required.")
      else if account.credentials.attemptId ≠ previousAttemptId then .error authorizationConflict
      else .ok ()

def assertAuthorizable (account : ProxyAccount) (input : PrepareLoginAuthorizationInput) :
    Except PrepareError Unit :=
  if account.credentials.ssoUser ≠ input.ssoUser
      ∨ account.credentials.ghLogin ≠ some input.ghLogin then
    .error (.http 409 "account_mapping_changed"
      "The account mapping changed. Open the current account to reauthorize.")
  else
    match assertSuperseded account input.supersedes with
    | .error e => .error e
    | .ok () =>
        if input.credentials = .default ∧ input.ssoType ≠ .custom then
          .error (.http 409 "password_override_required"
            "Azure login requires an explicit password override.")
        else .ok ()

namespace Prepare

inductive Effect
  | getAccount (identity : String)
  | resolveDefaultLoginPassword (enterpriseId ssoUser : String)
  | beginCopilotOauthAuthorization (identity attemptId : String)
      (expectedAttemptId : Option (Option String))
deriving DecidableEq, Repr

abbrev Effect.Answer : Effect → Type
  | .getAccount _ => Option ProxyAccount
  | .resolveDefaultLoginPassword .. => Except String String
  | .beginCopilotOauthAuthorization .. => Bool

/-- `password` is what SSO answers. -/
def Effect.perform (password : String → String → Except String String) (now : Nat) :
    (e : Effect) → Storage → e.Answer × Storage
  | .getAccount identity, st => (st.getAccount identity, st)
  | .resolveDefaultLoginPassword enterpriseId ssoUser, st => (password enterpriseId ssoUser, st)
  | .beginCopilotOauthAuthorization identity attemptId expected, st =>
      let (st', changed) := st.beginCopilotOauthAuthorization identity attemptId expected now
      (changed, st')

end Prepare

open Prepare

abbrev PrepareM := Prog Effect Effect.Answer PrepareError

/-- An account row of the enterprise; another enterprise's row is never revealed. -/
def Prepare.getEnterpriseAccount (enterpriseId identity : String) : PrepareM (Option ProxyAccount) := do
  let account ← Prog.call (Effect.getAccount identity)
  return Option.filter (fun row => row.enterpriseId = enterpriseId) account

def resolvePassword (account : ProxyAccount) : LoginCredentials → PrepareM String
  | .override ssoPassword => return ssoPassword
  | .default => do
      match ← Prog.call
        (Effect.resolveDefaultLoginPassword account.enterpriseId account.credentials.ssoUser) with
      | .ok password => return password
      | .error message => Prog.throw (.thrown message)

/-- The `expected` argument of the guard. -/
def Supersedes.expected : Supersedes → Option (Option String)
  | .any => none
  | .attempt previousAttemptId => some previousAttemptId

def beginAttempt (identity attemptId : String) (account : ProxyAccount)
    (input : PrepareLoginAuthorizationInput) (password : String) : PrepareM LoginTaskRequest := do
  let begun ← Prog.call
    (Effect.beginCopilotOauthAuthorization identity attemptId input.supersedes.expected)
  if !begun then Prog.throw authorizationConflict
  else
    return {
      identity := identity, oauthAttemptId := attemptId, ssoUser := account.credentials.ssoUser
      ghLogin := input.ghLogin, ssoType := input.ssoType, ssoPassword := password }

def prepareLoginAuthorization (identity attemptId : String)
    (input : PrepareLoginAuthorizationInput) : PrepareM LoginTaskRequest := do
  match ← Prepare.getEnterpriseAccount input.enterpriseId identity with
  | none => Prog.throw (.http 404 "account_not_found" "The Proxy account no longer exists.")
  | some account =>
      match assertAuthorizable account input with
      | .error e => Prog.throw e
      | .ok () =>
          let password ← resolvePassword account input.credentials
          beginAttempt identity attemptId account input password

/-! ## When the begin takes effect -/

/-- The row passes the checks and the password is there. -/
def Admitted (password : String → String → Except String String) (identity : String)
    (input : PrepareLoginAuthorizationInput) (st : Storage) : Prop :=
  ∃ row, st.rows identity = some row ∧ row.enterpriseId = input.enterpriseId
    ∧ assertAuthorizable row input = .ok ()
    ∧ (input.credentials = .default →
      ∃ text, password row.enterpriseId row.credentials.ssoUser = .ok text)

/-- The calls between the read and the begin; with an override there is one await less. -/
def between (credentials : LoginCredentials) (during after : List Call) : List Call :=
  match credentials with
  | .override _ => during
  | .default => during ++ after

section Runs

variable {password : String → String → Except String String} {now : Nat}
  {identity attemptId : String} {input : PrepareLoginAuthorizationInput}
  {before during after calls : List Call} {st : Storage}

theorem run_append (st : Storage) (l l' : List Call) :
    st.run (l ++ l') = (st.run l).run l' := List.foldl_append ..

theorem beginAttempt_succeeds {account : ProxyAccount} {text : String}
    {moves : List (Storage → Storage)} :
    (∃ request, ((beginAttempt identity attemptId account input text).run
        (Effect.perform password now) moves st).1 = .ok request) ↔
      ((moves.headD id st).call
        (.begin identity attemptId input.supersedes.expected now)).2 = true := by
  unfold beginAttempt
  rw [Prog.run_call_bind]
  simp only [Effect.perform, call]
  by_cases hbegun : ((moves.headD id st).beginCopilotOauthAuthorization identity attemptId
      input.supersedes.expected now).2 = true
  · simp only [hbegun, Bool.not_true, Bool.false_eq_true, if_false, Prog.run_pure, iff_true]
    exact ⟨_, rfl⟩
  · rw [Bool.not_eq_true] at hbegun
    simp only [hbegun, Bool.not_false, if_true, Prog.run_throw, Bool.false_eq_true, iff_false]
    rintro ⟨_, h⟩
    cases h

/-- The request succeeds exactly when the row it read was admitted and the guard holds of what other
requests have made of the row since. -/
theorem prepare_succeeds :
    (∃ request, ((prepareLoginAuthorization identity attemptId input).run
        (Effect.perform password now) [(·.run before), (·.run during), (·.run after)] st).1
          = .ok request) ↔
      Admitted password identity input (st.run before)
      ∧ (((st.run before).run (between input.credentials during after)).call
        (.begin identity attemptId input.supersedes.expected now)).2 = true := by
  unfold prepareLoginAuthorization Prepare.getEnterpriseAccount Admitted
  simp only [bind_assoc, Prog.run_call_bind, pure_bind, Effect.perform, Storage.getAccount,
    List.headD_cons, List.tail_cons]
  cases hread : Option.filter (fun row => decide (row.enterpriseId = input.enterpriseId))
      ((st.run before).rows identity) with
  | none =>
      dsimp only
      refine ⟨fun ⟨_, h⟩ => (by cases h), ?_⟩
      rintro ⟨⟨row, hrow, hent, -⟩, -⟩
      rw [hrow, Option.filter_some_pos (by simpa using hent)] at hread
      cases hread
  | some account =>
      obtain ⟨hrow, hent⟩ := Option.filter_eq_some_iff.mp hread
      have hent : account.enterpriseId = input.enterpriseId := by simpa using hent
      cases hcheck : assertAuthorizable account input with
      | error e =>
          simp only [hcheck]
          refine ⟨fun ⟨_, h⟩ => (by cases h), ?_⟩
          rintro ⟨⟨row, hrow', -, hok, -⟩, -⟩
          obtain rfl := Option.some.inj (hrow.symm.trans hrow')
          rw [hcheck] at hok
          cases hok
      | ok u =>
          have hadmitted : (∃ row, (st.run before).rows identity = some row
              ∧ row.enterpriseId = input.enterpriseId ∧ assertAuthorizable row input = .ok ()
              ∧ (input.credentials = .default →
                ∃ text, password row.enterpriseId row.credentials.ssoUser = .ok text)) ↔
              (input.credentials = .default →
                ∃ text, password account.enterpriseId account.credentials.ssoUser = .ok text) := by
            constructor
            · rintro ⟨row, hrow', -, -, hpassword⟩
              obtain rfl := Option.some.inj (hrow.symm.trans hrow')
              exact hpassword
            · exact fun hpassword => ⟨account, hrow, hent, hcheck, hpassword⟩
          rw [hadmitted]
          simp only [hcheck]
          cases hmode : input.credentials with
          | override text =>
              simp only [resolvePassword, pure_bind, between]
              rw [beginAttempt_succeeds]
              simp
          | default =>
              simp only [resolvePassword, bind_assoc, Prog.run_call_bind, Effect.perform,
                List.headD_cons, List.tail_cons, between, run_append]
              cases hpassword : password account.enterpriseId account.credentials.ssoUser with
              | error message =>
                  dsimp only
                  refine ⟨fun ⟨_, h⟩ => (by cases h), ?_⟩
                  rintro ⟨h, -⟩
                  obtain ⟨text, htext⟩ := h trivial
                  cases htext
              | ok text =>
                  simp only [pure_bind]
                  rw [beginAttempt_succeeds]
                  simp

end Runs

/-! ## What the guard sees -/

/-- The last call that writes the attempt column leaves it empty. -/
def LastClears (identity : String) : Storage → List Call → Prop
  | _, [] => False
  | st, c :: calls =>
      (c.Clears identity st ∧ Undisturbed (Call.Clears identity) identity (st.call c).1 calls)
        ∨ LastClears identity (st.call c).1 calls

/-- Some call writes the attempt column, and the last that does leaves this value in it. -/
def PutsBack (identity : String) (st : Storage) (calls : List Call) : Option String → Prop
  | some a => LatestBegin (Call.Clears identity) identity a st calls
  | none => LastClears identity st calls

/-- The row carries no attempt. -/
def Bare (identity : String) (st : Storage) : Prop :=
  ∃ row, st.rows identity = some row ∧ row.credentials.attemptId = none

section Guard

variable {identity : String} {st : Storage} {c : Call} {calls : List Call}

/-- A call that neither begins an attempt nor clears it can only fail it. -/
theorem call_quiet (hbegins : ¬c.Begins identity st) (hclears : ¬c.Clears identity st) :
    (st.call c).1.rows identity = st.rows identity
    ∨ ∃ row row', st.rows identity = some row ∧ (st.call c).1.rows identity = some row'
        ∧ row'.credentials.attemptId = row.credentials.attemptId
        ∧ row'.credentials.status = .failed := by
  by_cases hid : c.identity = identity
  · cases heff : (st.call c).2 with
    | false => exact .inl (by rw [call_refused heff])
    | true =>
        cases c with
        | begin i b expected now => exact absurd ⟨hid, heff⟩ hbegins
        | save i b token ghLogin now => exact absurd ⟨hid, heff⟩ hclears
        | invalidate i token status now => exact absurd ⟨hid, heff⟩ hclears
        | importToken input token now => exact absurd ⟨hid, heff⟩ hclears
        | fail i b now =>
            cases hid
            obtain ⟨row, hrow, hattempt⟩ := fail_effective.mp heff
            obtain ⟨row', hrow', hattempt', hstatus⟩ := call_effective heff
            exact .inr ⟨row, row', hrow, hrow', hattempt'.trans hattempt.symm, hstatus⟩
  · exact .inl (call_other hid)

theorem bare_call (st : Storage) (c : Call) : Bare identity (st.call c).1 ↔
    c.Clears identity st ∨ (Bare identity st ∧ ¬(c.Begins identity st ∨ c.Clears identity st)) := by
  by_cases hclears : c.Clears identity st
  · simp only [hclears, true_or, iff_true]
    exact clears_attempt hclears
  by_cases hbegins : c.Begins identity st
  · simp only [hclears, hbegins, true_or, not_true, and_false, or_self, iff_false]
    cases c with
    | begin i b expected now =>
        obtain ⟨rfl, heff⟩ := hbegins
        obtain ⟨row, hrow, hattempt, -⟩ := call_effective heff
        rintro ⟨row', hrow', hnone⟩
        obtain rfl := Option.some.inj (hrow.symm.trans hrow')
        rw [hattempt] at hnone
        cases hnone
    | save | invalidate | importToken | fail => exact hbegins.elim
  · simp only [hclears, hbegins, or_self, not_false_iff, and_true, false_or]
    unfold Bare
    rcases call_quiet hbegins hclears with heq | ⟨row, row', hrow, hrow', hattempt, -⟩
    · rw [heq]
    · simp [hrow, hrow', hattempt]

theorem bare_iff (calls : List Call) : ∀ st, Bare identity (st.run calls) ↔
    LastClears identity st calls
      ∨ (Bare identity st ∧ Undisturbed (Call.Clears identity) identity st calls) := by
  induction calls with
  | nil =>
      intro st
      simp [run, LastClears, Undisturbed]
  | cons c calls ih =>
      intro st
      have hrun : st.run (c :: calls) = (st.call c).1.run calls := rfl
      rw [hrun, ih, bare_call]
      simp only [LastClears, Undisturbed]
      constructor
      · rintro (hlater | ⟨hclears | ⟨hbare, hkeep⟩, hrest⟩)
        · exact .inl (.inr hlater)
        · exact .inl (.inl ⟨hclears, hrest⟩)
        · exact .inr ⟨hbare, hkeep, hrest⟩
      · rintro ((⟨hclears, hrest⟩ | hlater) | ⟨hbare, hkeep, hrest⟩)
        · exact .inr ⟨.inl hclears, hrest⟩
        · exact .inl hlater
        · exact .inr ⟨.inr ⟨hbare, hkeep⟩, hrest⟩

/-- The guard of a begin passes on a row that has the expected attempt. -/
theorem begin_effective {attemptId : String} {expected : Option String} {now : Nat} :
    (st.call (.begin identity attemptId (some expected) now)).2 = true
      ↔ ∃ row, st.rows identity = some row ∧ row.credentials.attemptId = expected := by
  simp only [call, beginCopilotOauthAuthorization, update_effective, decide_eq_true_eq]

/-- After any calls the guard passes if one of them has put the expected value back, or if the value
was there and none of them wrote the column. -/
theorem begin_after {attemptId : String} {expected : Option String} {now : Nat} :
    ((st.run calls).call (.begin identity attemptId (some expected) now)).2 = true ↔
      PutsBack identity st calls expected
      ∨ ((∃ row, st.rows identity = some row ∧ row.credentials.attemptId = expected)
        ∧ Undisturbed (Call.Clears identity) identity st calls) := by
  rw [begin_effective]
  cases expected with
  | none => exact bare_iff calls st
  | some a => exact latest_iff carries_call calls st

/-- What puts a value back has disturbed the row. -/
theorem PutsBack.disturbs {expected : Option String} (h : PutsBack identity st calls expected) :
    ¬Undisturbed (Call.Clears identity) identity st calls := by
  induction calls generalizing st with
  | nil => cases expected <;> exact absurd h (by simp [PutsBack, LatestBegin, LastClears])
  | cons c calls ih =>
      rintro ⟨hquiet, hrest⟩
      cases expected with
      | none =>
          rcases h with ⟨hclears, -⟩ | hlater
          · exact hquiet (.inr hclears)
          · have hback : PutsBack identity (st.call c).1 calls none := hlater
            exact ih hback hrest
      | some a =>
          rcases h with ⟨hbegins, -⟩ | hlater
          · exact hquiet (.inl hbegins)
          · have hback : PutsBack identity (st.call c).1 calls (some a) := hlater
            exact ih hback hrest

/-- An undisturbed row does not become valid. -/
theorem undisturbed_invalid (hquiet : Undisturbed (Call.Clears identity) identity st calls)
    (hinvalid : ∀ row, st.rows identity = some row → row.credentials.status ≠ .valid) :
    ∀ row, (st.run calls).rows identity = some row → row.credentials.status ≠ .valid := by
  induction calls generalizing st with
  | nil => exact hinvalid
  | cons c calls ih =>
      obtain ⟨hcall, hrest⟩ := hquiet
      rw [not_or] at hcall
      refine ih hrest fun row hrow => ?_
      rcases call_quiet hcall.1 hcall.2 with heq | ⟨-, row', -, hrow', -, hfailed⟩
      · exact hinvalid row (heq ▸ hrow)
      · obtain rfl := Option.some.inj (hrow'.symm.trans hrow)
        rw [hfailed]
        decide

end Guard

theorem assertAuthorizable_attempt {account : ProxyAccount} {input : PrepareLoginAuthorizationInput}
    {previous : Option String} (h : assertAuthorizable account input = .ok ())
    (hinput : input.supersedes = .attempt previous) :
    account.credentials.status ≠ .valid ∧ account.credentials.attemptId = previous := by
  unfold assertAuthorizable at h
  split at h
  · cases h
  · split at h
    · cases h
    · rename_i hsuperseded
      rw [hinput] at hsuperseded
      dsimp only [assertSuperseded] at hsuperseded
      split at hsuperseded
      · cases hsuperseded
      · split at hsuperseded
        · cases hsuperseded
        · exact ⟨‹_›, not_not.mp ‹_›⟩

/-! ## The fence of a retry -/

/-- A retry that names the attempt it replaces, whatever other requests do before it reads the row,
while SSO answers and before it begins. If its begin takes effect, no other begin, save, import or
invalidation has and the row is not valid: exactly where the checks did not pass at the read or the
last of the others that wrote the attempt column has not put the named attempt back. -/
theorem retry_fence (password : String → String → Except String String) (now : Nat)
    (identity attemptId : String) (input : PrepareLoginAuthorizationInput)
    (previousAttemptId : Option String) (hinput : input.supersedes = .attempt previousAttemptId)
    (before during after : List Call) (st : Storage) :
    let read := st.run before
    let calls := between input.credentials during after
    ((∃ request, ((prepareLoginAuthorization identity attemptId input).run
          (Effect.perform password now) [(·.run before), (·.run during), (·.run after)] st).1
            = .ok request) →
        Undisturbed (Call.Clears identity) identity read calls
        ∧ ∀ row, (read.run calls).rows identity = some row → row.credentials.status ≠ .valid)
      ↔ ¬(Admitted password identity input read
          ∧ PutsBack identity read calls previousAttemptId) := by
  intro read calls
  rw [prepare_succeeds, hinput]
  simp only [Supersedes.expected]
  rw [begin_after]
  constructor
  · rintro hfence ⟨hadmitted, hback⟩
    exact hback.disturbs (hfence ⟨hadmitted, .inl hback⟩).1
  · rintro hnot ⟨hadmitted, hback | ⟨-, hquiet⟩⟩
    · exact absurd ⟨hadmitted, hback⟩ hnot
    · refine ⟨hquiet, undisturbed_invalid hquiet fun row hrow => ?_⟩
      obtain ⟨row', hrow', -, hcheck, -⟩ := hadmitted
      obtain rfl := Option.some.inj (hrow.symm.trans hrow')
      exact (assertAuthorizable_attempt hcheck hinput).1

namespace Sample

def newcomer : ProxyAccount :=
  { identity := "alice_corp", enterpriseId := "default"
    credentials := { token := none, status := .missing, attemptId := none
                     oauthUpdatedAt := none, ssoUser := "alice", ghLogin := some "alice-gh" }
    createdAt := 0, updatedAt := 0 }

def accounts : Storage where
  enterprises := ["default"]
  rows := fun i => if i = "alice_corp" then some newcomer else none

def retry : PrepareLoginAuthorizationInput where
  credentials := .default
  enterpriseId := "default"
  ssoType := .custom
  ssoUser := "alice"
  ghLogin := "alice-gh"
  supersedes := .attempt none

def sso (_ _ : String) : Except String String := .ok "secret"

/-- An administrator imports a token while SSO is asked for the password. -/
def imports : List Call :=
  [.importToken { identity := "alice_corp", enterpriseId := "default", ssoUser := "alice"
                  ghLogin := some "alice-gh" } "gho_1" 5]

end Sample

/-- The retry of an account that never had an attempt takes the imported authorization away. -/
theorem retry_fence_import :
    (∃ request, ((prepareLoginAuthorization "alice_corp" "attempt-2" Sample.retry).run
        (Effect.perform Sample.sso 9) [(·.run []), (·.run Sample.imports), (·.run [])]
          Sample.accounts).1 = .ok request)
    ∧ ¬Undisturbed (Call.Clears "alice_corp") "alice_corp" Sample.accounts Sample.imports
    ∧ ∃ row, (Sample.accounts.run Sample.imports).rows "alice_corp" = some row
        ∧ row.credentials.status = .valid := by
  refine ⟨⟨_, rfl⟩, ?_, _, rfl, rfl⟩
  rintro ⟨hquiet, -⟩
  exact hquiet (.inr ⟨rfl, by decide⟩)

/-- Without other requests the same retry is fenced. -/
theorem retry_fence_quiet :
    (∃ request, ((prepareLoginAuthorization "alice_corp" "attempt-2" Sample.retry).run
        (Effect.perform Sample.sso 9) [(·.run []), (·.run []), (·.run [])]
          Sample.accounts).1 = .ok request)
    ∧ ∀ row, Sample.accounts.rows "alice_corp" = some row → row.credentials.status ≠ .valid := by
  have hbegun : ∃ request, ((prepareLoginAuthorization "alice_corp" "attempt-2" Sample.retry).run
      (Effect.perform Sample.sso 9) [(·.run []), (·.run []), (·.run [])]
        Sample.accounts).1 = .ok request := ⟨_, rfl⟩
  have hfence := retry_fence Sample.sso 9 "alice_corp" "attempt-2" Sample.retry none rfl [] [] []
    Sample.accounts
  exact ⟨hbegun, (hfence.mpr (fun h => h.2.elim) hbegun).2⟩

end GhcpConsole.Accounts
