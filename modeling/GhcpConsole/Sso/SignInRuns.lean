import GhcpConsole.Sso.SignIn

/-!
# Who a signed response is for

No run of requests, whatever their cookies are, makes the service sign a response for a user who has not signed in:
behind every response stands a login with the password of that row at that enterprise, and a request that this
enterprise's service provider sent to it less than five minutes before the session was read (`sign_in`). All that
is asked of HMAC is that nobody else makes a signature (`Unforged`). Cookies that the baseline had signed are the
only other way in, for the default enterprise alone.
-/

namespace GhcpConsole.Sso.SignIn

section Vouching

variable (env : Env) (start : State)

/-- A cookie that had been signed before the first request. -/
def Legacy (payload : OrderedMap JsString JsonValue) : Prop :=
  ∃ secret value, (secret, signedText DEFAULT_COOKIE_NAME value) ∈ start.signed
    ∧ decodePayload value = some (.obj payload)

def LegacyUser (enterprise : SsoEnterprise) (ssoUser : Name) : Prop :=
  enterprise.isDefault = true ∧ ∃ payload now user, Legacy start payload
    ∧ (legacySession payload now).user = some user ∧ sqlLower (JsString.scalars user.ssoUser) = sqlLower ssoUser

def LegacyRequest (enterprise : SsoEnterprise) (requestId relayState : Option JsString) : Prop :=
  enterprise.isDefault = true ∧ ∃ payload now pending, Legacy start payload
    ∧ (legacySession payload now).pending = some pending ∧ pending.requestId = requestId
    ∧ pending.relayState = relayState

/-- The user has logged in at the enterprise, as the row that was created then. -/
def Proven (log : List Event) (enterprise : SsoEnterprise) (ssoUser : Name) (createdAt : List Char) : Prop :=
  ∃ own user password, .loggedIn own user password ∈ log ∧ own.id = enterprise.id
    ∧ sqlLower user.ssoUser = sqlLower ssoUser ∧ user.createdAt = createdAt
    ∧ env.verifyPassword password user.passwordHash user.salt = true

/-- The enterprise's service provider sent the request to this identity provider. -/
def Matches (enterprise : SsoEnterprise) (request : AuthnRequestFields) : Prop :=
  ∃ urls, samlUrls env.baseUrl enterprise = .ok urls ∧ assertRequestMatches request urls = .ok ()

/-- A visit with the request and the relay state was accepted at the time. -/
def Asked (log : List Event) (enterprise : SsoEnterprise) (requestId relayState : Option JsString) (now : EpochMs) :
    Prop :=
  ∃ own request, .requested own request relayState now ∈ log ∧ own.id = enterprise.id
    ∧ request.bind (·.id) = requestId ∧ ∀ fields ∈ request, Matches env own fields

/-- What makes a response for the user right. -/
structure Justified (earlier : List Event) (enterprise : SsoEnterprise) (user : StoredUser)
    (requestId relayState : Option JsString) (readAt : EpochMs) : Prop where
  user : Proven env earlier enterprise user.ssoUser user.createdAt ∨ LegacyUser start enterprise user.ssoUser
  request : (∃ now, Asked env earlier enterprise requestId relayState now ∧ readAt.val < now.val + PENDING_TTL_MS)
    ∨ LegacyRequest start enterprise requestId relayState

/-- Only cookies of the baseline have been signed. -/
structure State.Initial (s : State) : Prop where
  handlers : ∀ id, s.handlers id = none
  log : s.log = []
  signed : ∀ entry ∈ s.signed, ∃ value, entry.2 = signedText DEFAULT_COOKIE_NAME value
    ∧ ∀ payload, decodePayload value = some (.obj payload) → OrderedMap.get payload (utf16 "e") = none

/-- A cookie that comes with a valid signature was signed here. -/
def Unforged (s : State) (enterprise : SsoEnterprise) (cookies : Option JsString) : Prop :=
  ∀ value signature secret, readCookie cookies (cookieRef enterprise).name = some value →
    readCookie cookies (signatureName (cookieRef enterprise).name) = some signature →
    ssoSessionSecret s.secrets enterprise = .ok secret →
    hasValidSignature env.hmac (cookieRef enterprise).name value signature secret = true →
    (secret, signedText (cookieRef enterprise).name value) ∈ s.signed

/-- The cookies that the service reads at this step are `Unforged`. -/
def Authentic (s : State) : Input → Prop
  | .startSso enterprise cookies _ _ _ => Unforged env s enterprise cookies
  | .verified id _ => ∀ enterprise user password cookies,
      s.handlers id = some (.verifying enterprise user password cookies) → Unforged env s enterprise cookies
  | _ => True

def AuthenticRun (s : State) : List Input → Prop
  | [] => True
  | input :: inputs => Authentic env s input ∧ AuthenticRun (step env s input).1 inputs

end Vouching

section Sessions

variable {env : Env} {start : State} {log log' : List Event} {enterprise : SsoEnterprise} {session : EnterpriseSession}

def UserVouched (env : Env) (start : State) (log : List Event) (enterprise : SsoEnterprise) (user : SessionUser) :
    Prop :=
  (∃ createdAt, user.createdAt = some (JsString.ofChars createdAt)
      ∧ Proven env log enterprise (JsString.scalars user.ssoUser) createdAt)
    ∨ LegacyUser start enterprise (JsString.scalars user.ssoUser)

def PendingVouched (env : Env) (start : State) (log : List Event) (enterprise : SsoEnterprise)
    (pending : PendingRequest) : Prop :=
  ∃ now : EpochMs, pending.exp = Double.ofNat (now + PENDING_TTL_MS)
    ∧ (Asked env log enterprise pending.requestId pending.relayState now
      ∨ LegacyRequest start enterprise pending.requestId pending.relayState)

/-- All that the session says is known from the log. -/
structure Vouched (env : Env) (start : State) (log : List Event) (enterprise : SsoEnterprise)
    (session : EnterpriseSession) : Prop where
  own : session.e = enterprise.id
  user : ∀ user ∈ session.user, UserVouched env start log enterprise user
  pending : ∀ pending ∈ session.pending, PendingVouched env start log enterprise pending

theorem Proven.mono {ssoUser : Name} {createdAt : List Char} (h : Proven env log enterprise ssoUser createdAt)
    (sub : log ⊆ log') : Proven env log' enterprise ssoUser createdAt := by
  obtain ⟨own, user, password, mem, rest⟩ := h
  exact ⟨own, user, password, sub mem, rest⟩

theorem Asked.mono {requestId relayState : Option JsString} {now : EpochMs}
    (h : Asked env log enterprise requestId relayState now) (sub : log ⊆ log') :
    Asked env log' enterprise requestId relayState now := by
  obtain ⟨own, request, mem, rest⟩ := h
  exact ⟨own, request, sub mem, rest⟩

theorem Vouched.mono (h : Vouched env start log enterprise session) (sub : log ⊆ log') :
    Vouched env start log' enterprise session := by
  refine ⟨h.own, fun user mem => ?_, fun pending mem => ?_⟩
  · rcases h.user user mem with ⟨createdAt, created, proven⟩ | legacy
    · exact .inl ⟨createdAt, created, proven.mono sub⟩
    · exact .inr legacy
  · obtain ⟨now, exp, asked | legacy⟩ := h.pending pending mem
    · exact ⟨now, exp, .inl (asked.mono sub)⟩
    · exact ⟨now, exp, .inr legacy⟩

theorem Vouched.same {other : SsoEnterprise} (h : Vouched env start log enterprise session)
    (same : enterprise.id = other.id) : Vouched env start log other session := by
  have default : enterprise.isDefault = other.isDefault := by rw [SsoEnterprise.isDefault, SsoEnterprise.isDefault, same]
  refine ⟨h.own.trans same, fun user mem => ?_, fun pending mem => ?_⟩
  · rcases h.user user mem with ⟨createdAt, created, own, row, password, logged, atOwn, rest⟩ | ⟨legacy, rest⟩
    · exact .inl ⟨createdAt, created, own, row, password, logged, atOwn.trans same, rest⟩
    · exact .inr ⟨default ▸ legacy, rest⟩
  · obtain ⟨now, exp, ⟨own, request, asked, atOwn, rest⟩ | ⟨legacy, rest⟩⟩ := h.pending pending mem
    · exact ⟨now, exp, .inl ⟨own, request, asked, atOwn.trans same, rest⟩⟩
    · exact ⟨now, exp, .inr ⟨default ▸ legacy, rest⟩⟩

theorem Vouched.empty : Vouched env start log enterprise { e := enterprise.id } :=
  ⟨rfl, fun _ mem => (Option.not_mem_none _ mem).elim, fun _ mem => (Option.not_mem_none _ mem).elim⟩

theorem Vouched.withoutUser (h : Vouched env start log enterprise session) :
    Vouched env start log enterprise { session with user := none } :=
  ⟨h.own, fun _ mem => (Option.not_mem_none _ mem).elim, h.pending⟩

theorem Vouched.withUser {user : SessionUser} (h : Vouched env start log enterprise session)
    (vouched : UserVouched env start log enterprise user) :
    Vouched env start log enterprise { session with user := some user } :=
  ⟨h.own, fun _ mem => Option.mem_some_iff.mp mem ▸ vouched, h.pending⟩

theorem Vouched.withoutPending (h : Vouched env start log enterprise session) :
    Vouched env start log enterprise { session with pending := none } :=
  ⟨h.own, h.user, fun _ mem => (Option.not_mem_none _ mem).elim⟩

theorem Vouched.withPending {requestId relayState : Option JsString} {now : EpochMs}
    (h : Vouched env start log enterprise session) (asked : Asked env log enterprise requestId relayState now) :
    Vouched env start log enterprise { session with pending := some (newPending requestId relayState now) } := by
  refine ⟨h.own, h.user, fun pending mem => ?_⟩
  rw [← Option.mem_some_iff.mp mem]
  refine ⟨now, ?_, .inl asked⟩
  rw [newPending]

theorem PendingVouched.whole {pending : PendingRequest} (h : PendingVouched env start log enterprise pending) :
    pending.Whole := by
  obtain ⟨now, exp, -⟩ := h
  exact ⟨now + PENDING_TTL_MS, now_add_lt now, exp⟩

theorem atMost_newPending (now later : EpochMs) :
    (Double.ofNat (now + PENDING_TTL_MS)).atMost later = decide (now + PENDING_TTL_MS ≤ later.val) :=
  Double.atMost_ofNat (now_add_lt now)

theorem vouched_legacySession {payload : OrderedMap JsString JsonValue} (legacy : Legacy start payload)
    (default : enterprise.isDefault = true) (now : EpochMs) :
    Vouched env start log enterprise (legacySession payload now)
      ∧ ∀ pending ∈ (legacySession payload now).pending, pending.exp.atMost now = false := by
  have fresh : ∀ pending ∈ (legacySession payload now).pending, pending.exp = Double.ofNat (now + PENDING_TTL_MS) := by
    intro pending mem
    rw [legacySession] at mem
    dsimp only at mem
    split at mem
    · rw [← Option.mem_some_iff.mp mem]
      rw [newPending]
    · cases mem
  refine ⟨⟨(of_decide_eq_true default).symm, fun user mem => .inr ?_, fun pending mem => ⟨now, fresh pending mem, .inr ?_⟩⟩,
    fun pending mem => ?_⟩
  · exact ⟨default, payload, now, user, legacy, mem, rfl⟩
  · exact ⟨default, payload, now, pending, legacy, mem, rfl, rfl⟩
  · rw [fresh pending mem, atMost_newPending]
    exact decide_eq_false (by simp only [PENDING_TTL_MS]; omega)

end Sessions

section Reading

variable {env : Env} {start s : State} {enterprise : SsoEnterprise} {session : EnterpriseSession} {now : EpochMs}

/-- What a handler will go on with is known from the log. -/
def HandlerVouched (env : Env) (start : State) (log : List Event) : Handler → Prop
  | .parsing enterprise session _ => Vouched env start log enterprise session
  | .verifying _ _ _ _ => True
  | .building enterprise session user readAt =>
      Vouched env start log enterprise session
        ∧ (Proven env log enterprise user.ssoUser user.createdAt ∨ LegacyUser start enterprise user.ssoUser)
        ∧ ∃ pending, session.pending = some pending ∧ pending.exp.atMost readAt = false

structure Inv (env : Env) (start s : State) : Prop where
  signed : ∀ secret text, (secret, text) ∈ s.signed → (secret, text) ∈ start.signed
    ∨ ∃ enterprise session, text = signedText (cookieRef enterprise).name (cookieValue session)
      ∧ Vouched env start s.log enterprise session
  handlers : ∀ id handler, s.handlers id = some handler → HandlerVouched env start s.log handler
  answers : ∀ enterprise user requestId relayState readAt earlier,
    .answered enterprise user requestId relayState readAt :: earlier <:+ s.log →
    Justified env start earlier enterprise user requestId relayState readAt

theorem sessionOf_legacy {payload : Option JsonValue}
    (noE : ∀ members, payload = some (.obj members) → OrderedMap.get members (utf16 "e") = none) (now : EpochMs) :
    sessionOf enterprise payload now = { e := enterprise.id }
      ∨ ∃ members, payload = some (.obj members) ∧ enterprise.isDefault = true
        ∧ sessionOf enterprise payload now = legacySession members now := by
  cases payload with
  | none => exact .inl rfl
  | some value =>
      cases value with
      | obj members =>
          have read : sessionOf enterprise (some (.obj members)) now
              = if enterprise.isDefault then legacySession members now else { e := enterprise.id } := by
            rw [sessionOf, Option.bind_some, JsonValue.members?]
            dsimp only
            rw [noE members rfl]
          by_cases default : enterprise.isDefault = true
          · exact .inr ⟨members, rfl, default, by rw [read, if_pos default]⟩
          · exact .inl (by rw [read, if_neg default])
      | _ => exact .inl rfl

theorem vouched_baseline (initial : start.Initial) {secret value : JsString} {log : List Event}
    (mem : (secret, signedText (cookieRef enterprise).name value) ∈ start.signed) (now : EpochMs) :
    Vouched env start log enterprise (sessionOf enterprise (decodePayload value) now)
      ∧ ∀ pending ∈ (sessionOf enterprise (decodePayload value) now).pending, pending.exp.atMost now = false := by
  obtain ⟨own, same, noE⟩ := initial.signed _ mem
  obtain ⟨names, rfl⟩ := signedText_inj (fun mem => absurd (isNameUnit_name mem) (by decide)) (by decide) same
  rw [names] at mem
  rcases sessionOf_legacy noE now with empty | ⟨members, decoded, default, legacy⟩
  · rw [empty]
    exact ⟨Vouched.empty, fun _ mem => (Option.not_mem_none _ mem).elim⟩
  · rw [legacy]
    exact vouched_legacySession ⟨secret, value, mem, decoded⟩ default now

theorem vouched_written {own : SsoEnterprise} {log : List Event} (h : Vouched env start log own session)
    (same : own.id = enterprise.id) (now : EpochMs) :
    Vouched env start log enterprise (sessionOf enterprise (decodePayload (cookieValue session)) now)
      ∧ ∀ pending ∈ (sessionOf enterprise (decodePayload (cookieValue session)) now).pending,
        pending.exp.atMost now = false := by
  have h := h.same same
  rw [sessionOf_cookieValue (fun pending mem => (h.pending pending mem).whole) h.own]
  refine ⟨⟨rfl, fun user mem => h.user user ?_, fun pending mem => h.pending pending ?_⟩, fun pending mem => ?_⟩
  · exact (Option.mem_filter_iff.mp mem).1
  · exact (Option.mem_filter_iff.mp mem).1
  · simpa using (Option.mem_filter_iff.mp mem).2

theorem Inv.readSession (h : Inv env start s) (initial : start.Initial) {cookies : Option JsString}
    (unforged : Unforged env s enterprise cookies)
    (read : Sso.readSession env.hmac s.secrets cookies enterprise now = .ok session) :
    Vouched env start s.log enterprise session ∧ ∀ pending ∈ session.pending, pending.exp.atMost now = false := by
  rcases readSession_ok read with rfl | ⟨value, signature, secret, hasValue, hasSignature, known, valid, rfl⟩
  · exact ⟨Vouched.empty, fun _ mem => (Option.not_mem_none _ mem).elim⟩
  · rcases h.signed _ _ (unforged value signature secret hasValue hasSignature known valid) with
      baseline | ⟨own, written, text, vouched⟩
    · exact vouched_baseline initial baseline now
    · obtain ⟨same, rfl⟩ := signedText_cookie text
      exact vouched_written vouched same.symm now

end Reading

section Steps

variable {env : Env} {start s : State} {enterprise : SsoEnterprise} {session : EnterpriseSession} {now : EpochMs}
  {log log' : List Event} {handler : Handler}

theorem HandlerVouched.mono (h : HandlerVouched env start log handler) (sub : log ⊆ log') :
    HandlerVouched env start log' handler := by
  cases handler with
  | parsing enterprise session query => exact Vouched.mono h sub
  | verifying enterprise user password cookies => trivial
  | building enterprise session user readAt =>
      obtain ⟨vouched, user, pending⟩ := h
      exact ⟨vouched.mono sub, user.imp_left fun proven => proven.mono sub, pending⟩

/-- An event may be recorded unless it is an answer that is not justified. -/
theorem Inv.record (h : Inv env start s) {event : Event}
    (justified : ∀ enterprise user requestId relayState readAt,
      event = .answered enterprise user requestId relayState readAt →
      Justified env start s.log enterprise user requestId relayState readAt) : Inv env start (s.record event) := by
  have sub : s.log ⊆ event :: s.log := List.subset_cons_self _ _
  refine ⟨fun secret text mem => ?_, fun id handler found => (h.handlers id handler found).mono sub, ?_⟩
  · rcases h.signed secret text mem with before | ⟨own, written, same, vouched⟩
    · exact .inl before
    · exact .inr ⟨own, written, same, vouched.mono sub⟩
  · intro own user requestId relayState readAt earlier suffix
    rcases List.suffix_cons_iff.mp suffix with whole | later
    · obtain ⟨rfl, rfl⟩ := List.cons.inj whole
      exact justified own user requestId relayState readAt rfl
    · exact h.answers own user requestId relayState readAt earlier later

theorem log_write (env : Env) (enterprise : SsoEnterprise) (session : EnterpriseSession) (s : State) :
    (write env enterprise session s).2.log = s.log := rfl

/-- Only what the log vouches for is signed. -/
theorem Inv.write (h : Inv env start s) (vouched : Vouched env start s.log enterprise session) :
    Inv env start (SignIn.write env enterprise session s).2 := by
  refine ⟨fun secret text mem => ?_, h.handlers, h.answers⟩
  rcases List.mem_append.mp mem with new | old
  · split at new
    · obtain ⟨rfl, rfl⟩ := Prod.mk.inj (List.mem_singleton.mp new)
      exact .inr ⟨enterprise, session, rfl, vouched⟩
    · cases new
  · exact h.signed secret text old

theorem Inv.await (h : Inv env start s) (vouched : HandlerVouched env start s.log handler) :
    Inv env start (s.await handler) := by
  refine ⟨h.signed, fun id other found => ?_, h.answers⟩
  simp only [State.await] at found
  split at found
  · rw [← Option.some.inj found]
    exact vouched
  · exact h.handlers id other found

theorem Inv.proceed (h : Inv env start s) (id : Nat) (vouched : HandlerVouched env start s.log handler) :
    Inv env start (s.proceed id handler) := by
  refine ⟨h.signed, fun own other found => ?_, h.answers⟩
  simp only [State.proceed] at found
  split at found
  · rw [← Option.some.inj found]
    exact vouched
  · exact h.handlers own other found

theorem Inv.finish (h : Inv env start s) (id : Nat) : Inv env start (s.finish id) := by
  refine ⟨h.signed, fun own other found => ?_, h.answers⟩
  simp only [State.finish] at found
  split at found
  · cases found
  · exact h.handlers own other found

/-- What a handler comes to, with the invariant. -/
def Good (env : Env) (start : State) : Sum (State × Handler) (State × Response) → Prop
  | .inl (s, handler) => Inv env start s ∧ HandlerVouched env start s.log handler
  | .inr (s, _) => Inv env start s

theorem Good.begin {outcome : Sum (State × Handler) (State × Response)} (h : Good env start outcome) :
    Inv env start (begin outcome).1 := by
  rcases outcome with ⟨s, handler⟩ | ⟨s, response⟩
  · exact h.1.await h.2
  · exact h

theorem Good.resume {outcome : Sum (State × Handler) (State × Response)} (h : Good env start outcome) (id : Nat) :
    Inv env start (resume id outcome).1 := by
  rcases outcome with ⟨s, handler⟩ | ⟨s, response⟩
  · exact h.1.proceed id h.2
  · exact h.finish id

theorem sqlLower_of_getUser {users : List StoredUser} {name : JsString} {user : StoredUser}
    (found : getUser users name = some user) : sqlLower user.ssoUser = sqlLower (JsString.scalars name) := by
  simpa using List.find?_some found

theorem ofChars_injective {a b : List Char} (same : JsString.ofChars a = JsString.ofChars b) : a = b := by
  rw [← JsString.scalars_ofChars a, same, JsString.scalars_ofChars]

/-- The row that was found now is the one that the session was vouched for. -/
theorem vouched_row {users : List StoredUser} {user : StoredUser} {own : SessionUser}
    (h : UserVouched env start log enterprise own) (found : getUser users own.ssoUser = some user)
    (same : own.createdAt.any (· ≠ JsString.ofChars user.createdAt) = false) :
    Proven env log enterprise user.ssoUser user.createdAt ∨ LegacyUser start enterprise user.ssoUser := by
  have named := sqlLower_of_getUser found
  rcases h with ⟨createdAt, created, row, logged, password, mem, atOwn, lower, rowCreated, verified⟩ |
    ⟨default, payload, now, legacy, mem, read, lower⟩
  · rw [created, Option.any_some, decide_eq_false_iff_not, not_not] at same
    have times := ofChars_injective same
    exact .inl ⟨row, logged, password, mem, atOwn, lower.trans named.symm, rowCreated.trans times, verified⟩
  · exact .inr ⟨default, payload, now, legacy, mem, read, lower.trans named.symm⟩

theorem userVouched_row {user : StoredUser}
    (h : Proven env log enterprise user.ssoUser user.createdAt ∨ LegacyUser start enterprise user.ssoUser) :
    UserVouched env start log enterprise ⟨JsString.ofChars user.ssoUser, some (JsString.ofChars user.createdAt)⟩ := by
  rw [UserVouched, JsString.scalars_ofChars]
  exact h.imp_left fun proven => ⟨user.createdAt, rfl, proven⟩

theorem vouched_currentUser (users : List StoredUser) (h : Vouched env start log enterprise session) :
    Vouched env start log enterprise (currentUser users session).2
      ∧ (currentUser users session).2.pending = session.pending
      ∧ ∀ user ∈ (currentUser users session).1,
        Proven env log enterprise user.ssoUser user.createdAt ∨ LegacyUser start enterprise user.ssoUser := by
  have nobody : ∀ {p : StoredUser → Prop}, ∀ user ∈ (none : Option StoredUser), p user :=
    fun _ mem => (Option.not_mem_none _ mem).elim
  unfold currentUser
  cases own : session.user with
  | none => exact ⟨h, rfl, nobody⟩
  | some sessionUser =>
      dsimp only
      split
      · exact ⟨h.withoutUser, rfl, nobody⟩
      · rename_i user found
        split
        · exact ⟨h.withoutUser, rfl, nobody⟩
        · rename_i same
          have row := vouched_row (h.user sessionUser own) found (by simpa using same)
          exact ⟨h.withUser (userVouched_row row), rfl, fun _ mem => Option.mem_some_iff.mp mem ▸ row⟩

theorem Inv.continueSso (h : Inv env start s) (vouched : Vouched env start s.log enterprise session)
    (asked : ∃ pending, session.pending = some pending ∧ pending.exp.atMost now = false) :
    Good env start (SignIn.continueSso env enterprise session now s) := by
  obtain ⟨current, same, row⟩ := vouched_currentUser (s.users enterprise.id) vouched
  unfold SignIn.continueSso
  generalize currentUser (s.users enterprise.id) session = found at current same row
  obtain ⟨found, session'⟩ := found
  have written := h.write current
  cases found with
  | none =>
      dsimp only at written ⊢
      generalize SignIn.write env enterprise session' s = result at written
      obtain ⟨⟨outcome, cookies⟩, s'⟩ := result
      cases outcome <;> exact written
  | some user => exact ⟨h, current, row user rfl, same ▸ asked⟩

theorem fresh_newPending (requestId relayState : Option JsString) (now : EpochMs) :
    (newPending requestId relayState now).exp.atMost now = false := by
  rw [newPending, atMost_newPending]
  exact decide_eq_false (by simp only [PENDING_TTL_MS]; omega)

/-- A visit is recorded, and the session has its pending request. -/
theorem Inv.requested (h : Inv env start s) (vouched : Vouched env start s.log enterprise session)
    (request : Option AuthnRequestFields) (matched : ∀ fields ∈ request, Matches env enterprise fields)
    (relayState : Option JsString) (now : EpochMs) :
    Good env start (SignIn.continueSso env enterprise
      { session with pending := some (newPending (request.bind (·.id)) relayState now) } now
      (s.record (.requested enterprise request relayState now))) := by
  have sub : s.log ⊆ .requested enterprise request relayState now :: s.log := List.subset_cons_self _ _
  have recorded : Inv env start (s.record (.requested enterprise request relayState now)) := by
    refine h.record ?_
    rintro _ _ _ _ _ ⟨⟩
  refine recorded.continueSso ((vouched.mono sub).withPending ?_) ⟨_, rfl, fresh_newPending _ _ _⟩
  exact ⟨enterprise, request, List.mem_cons_self, rfl, rfl, matched⟩

theorem Inv.startSso (h : Inv env start s) (initial : start.Initial) {cookies : Option JsString}
    (unforged : Unforged env s enterprise cookies) (query : SsoQuery) (later : EpochMs) :
    Good env start (SignIn.startSso env enterprise cookies query now later s) := by
  unfold SignIn.startSso
  split
  · exact h
  · rename_i session read
    have vouched := (h.readSession initial unforged read).1
    split
    · exact h.requested vouched none (fun _ mem => (Option.not_mem_none _ mem).elim) query.relayState later
    · exact ⟨h, vouched⟩

theorem Inv.parsed (h : Inv env start s) (vouched : Vouched env start s.log enterprise session) (query : SsoQuery)
    (request : Except String AuthnRequestFields) :
    Good env start (SignIn.parsed env enterprise session query request now s) := by
  unfold SignIn.parsed
  dsimp only
  split
  · exact h
  · rename_i fields checked
    have matched : Matches env enterprise fields := by
      cases urls : samlUrls env.baseUrl enterprise with
      | error message =>
          rw [urls] at checked
          cases checked
      | ok urls' =>
          rw [urls] at checked
          generalize (if query.samlRequest = some QueryValue.other then
            (.error "SAMLRequest is required." : Except String AuthnRequestFields) else request) = read at checked
          cases read with
          | error message => cases checked
          | ok request =>
              replace checked : (assertRequestMatches request urls' >>= fun _ => pure request) = .ok fields := checked
              cases same : assertRequestMatches request urls' with
              | error message =>
                  rw [same] at checked
                  cases checked
              | ok done =>
                  rw [same] at checked
                  obtain rfl := Except.ok.inj checked
                  exact ⟨urls', urls, same⟩
    have kept : Vouched env start s.log enterprise
        { session with user := if parseBoolean fields.forceAuthn = some true then none else session.user } := by
      split
      · exact vouched.withoutUser
      · exact vouched
    exact h.requested kept (some fields) (fun _ mem => Option.mem_some_iff.mp mem ▸ matched) query.relayState now

theorem Inv.login (h : Inv env start s) (cookies : Option JsString) (body : Option LoginBody) :
    Good env start (SignIn.login enterprise cookies body s) := by
  unfold SignIn.login
  split
  · exact h
  · split
    · exact h
    · exact ⟨h, trivial⟩

theorem Inv.verified (h : Inv env start s) (initial : start.Initial) {cookies : Option JsString}
    (unforged : Unforged env s enterprise cookies) (user : StoredUser) (password : JsString) :
    Good env start (SignIn.verified env enterprise user password cookies now s) := by
  unfold SignIn.verified
  split
  · rename_i valid
    have recorded : Inv env start (s.record (.loggedIn enterprise user password)) := by
      refine h.record ?_
      rintro _ _ _ _ _ ⟨⟩
    have proven : Proven env (.loggedIn enterprise user password :: s.log) enterprise user.ssoUser user.createdAt :=
      ⟨enterprise, user, password, List.mem_cons_self, rfl, rfl, rfl, valid⟩
    dsimp only
    split
    · exact recorded
    · rename_i session read
      obtain ⟨vouched, fresh⟩ := recorded.readSession initial unforged read
      have signedIn := vouched.withUser (userVouched_row (.inl proven))
      split
      · rename_i waiting
        obtain ⟨pending, own⟩ := Option.isSome_iff_exists.mp waiting
        exact ⟨recorded, signedIn, .inl proven, pending, own, fresh pending own⟩
      · have written := recorded.write signedIn
        generalize SignIn.write env enterprise _ _ = result at written
        obtain ⟨⟨outcome, cookies⟩, s'⟩ := result
        cases outcome <;> exact written
  · exact h

theorem justified_building {user : StoredUser} {readAt : EpochMs}
    (h : HandlerVouched env start log (.building enterprise session user readAt)) :
    Justified env start log enterprise user (session.pending.bind (·.requestId)) (session.pending.bind (·.relayState))
      readAt := by
  obtain ⟨vouched, row, pending, own, fresh⟩ := h
  obtain ⟨now, exp, asked | legacy⟩ := vouched.pending pending own
  · rw [exp, atMost_newPending, decide_eq_false_iff_not, not_le] at fresh
    rw [own]
    exact ⟨row, .inl ⟨now, asked, fresh⟩⟩
  · rw [own]
    exact ⟨row, .inr legacy⟩

theorem Inv.built (h : Inv env start s) {user : StoredUser} {readAt : EpochMs}
    (vouched : HandlerVouched env start s.log (.building enterprise session user readAt))
    (response : Except String Unit) : Inv env start (SignIn.built env enterprise session user readAt response s).1 := by
  have justified := justified_building vouched
  have written := h.write vouched.1.withoutPending
  have logged := log_write env enterprise { session with pending := none } s
  unfold SignIn.built
  split
  · exact h
  · dsimp only
    generalize SignIn.write env enterprise _ s = result at written logged
    obtain ⟨⟨outcome, cookies⟩, s'⟩ := result
    cases outcome with
    | error message => exact written
    | ok done =>
        refine written.record ?_
        rintro _ _ _ _ _ ⟨⟩
        dsimp only at logged
        rw [logged]
        exact justified

theorem Inv.step (h : Inv env start s) (initial : start.Initial) {input : Input} (authentic : Authentic env s input) :
    Inv env start (SignIn.step env s input).1 := by
  cases input with
  | secrets secrets => exact ⟨h.signed, h.handlers, h.answers⟩
  | users enterpriseId rows => exact ⟨h.signed, h.handlers, h.answers⟩
  | startSso enterprise cookies query now later => exact (h.startSso initial authentic query later).begin
  | login enterprise cookies body => exact (h.login cookies body).begin
  | parsed id request now =>
      rw [SignIn.step]
      split
      · rename_i enterprise session query found
        exact (h.parsed (h.handlers id _ found) query request).resume id
      · exact h
  | verified id now =>
      rw [SignIn.step]
      split
      · rename_i enterprise user password cookies found
        exact (h.verified initial (authentic enterprise user password cookies found) user password).resume id
      · exact h
  | built id response =>
      rw [SignIn.step]
      split
      · rename_i enterprise session user readAt found
        exact (h.built (h.handlers id _ found) response).finish id
      · exact h

theorem Inv.initial (initial : start.Initial) : Inv env start start := by
  refine ⟨fun _ _ mem => .inl mem, fun id handler found => ?_, fun _ _ _ _ _ _ suffix => ?_⟩
  · rw [initial.handlers id] at found
    cases found
  · rw [initial.log] at suffix
    cases List.suffix_nil.mp suffix

theorem authenticRun_append {first second : List Input} :
    AuthenticRun env s (first ++ second) ↔ AuthenticRun env s first ∧ AuthenticRun env (run env s first) second := by
  induction first generalizing s with
  | nil => exact ⟨fun h => ⟨trivial, h⟩, fun h => h.2⟩
  | cons input first ih =>
      rw [List.cons_append, AuthenticRun, AuthenticRun, ih, and_assoc]
      rfl

theorem Inv.run (initial : start.Initial) (inputs : List Input) :
    ∀ s, Inv env start s → AuthenticRun env s inputs → Inv env start (SignIn.run env s inputs) := by
  induction inputs with
  | nil => exact fun s h _ => h
  | cons input inputs ih => exact fun s h authentic => ih _ (h.step initial authentic.1) authentic.2

end Steps

/-- In every run, whatever comes in between: when a signed response for a user leaves the service, that row's
password had been given at that enterprise, and the request it answers had been sent to that enterprise less than
five minutes before. -/
theorem sign_in (env : Env) (start : State) (initial : start.Initial) (inputs : List Input)
    (authentic : AuthenticRun env start inputs) (enterprise : SsoEnterprise) (user : StoredUser)
    (requestId relayState : Option JsString) (readAt : EpochMs) (earlier : List Event)
    (answered : .answered enterprise user requestId relayState readAt :: earlier <:+ (run env start inputs).log) :
    Justified env start earlier enterprise user requestId relayState readAt :=
  (Inv.run initial inputs start (Inv.initial initial) authentic).answers _ _ _ _ _ _ answered

namespace Sample

def contoso : SsoEnterprise where
  id := "contoso"
  valid := by decide
  sessionSecret := some (.env "CONTOSO_SESSION")
  spEntityId := some (utf16 "https://github.com/enterprises/contoso")
  spAcsUrl := some (utf16 "https://github.com/enterprises/contoso/saml/consume")

def alice : StoredUser where
  ssoUser := "alice".toList
  passwordHash := "3e19ebeabf15ad17c24de695284e79441c0d80c6d98b95a3c052c58a0d57b09f"
    ++ "83b0742a5805af28a0b5bbcf673af62819b91eb830a104fb0bb42def767f52aa"
  salt := "00112233445566778899aabbccddeeff"
  email := "alice@contoso.example".toList
  ghLogin := none
  createdAt := "2026-10-18T00:00:00.000Z".toList

def bob : StoredUser where
  ssoUser := "bob".toList
  passwordHash := "2b28cc30657fc3b7e759f5f42be06296ce8af0046b81598738591ae5da5b1b25"
    ++ "141bf23f9ff8524907fbc515b4da577c7ca4873b0a3be6e688ec1781804ce874"
  salt := "ffeeddccbbaa99887766554433221100"
  email := "bob@contoso.example".toList
  ghLogin := none
  createdAt := "2026-10-18T00:00:00.000Z".toList

def secret : JsString := utf16 "contoso-session-secret"

/-- The session of Alice, and one in which a request is pending until 302000. -/
def value : JsString := utf16 ("eyJlIjoiY29udG9zbyIsInVzZXIiOnsic3NvVXNlciI6ImFsaWNlIiwiY3JlYXRlZEF0Ijoi"
  ++ "MjAyNi0xMC0xOFQwMDowMDowMC4wMDBaIn19")

def pendingValue : JsString := utf16 ("eyJlIjoiY29udG9zbyIsInBlbmRpbmciOnsicmVxdWVzdElkIjoiX2ExIiwicmVsYXlTdGF0ZSI6"
  ++ "InJlbGF5IiwiZXhwIjozMDIwMDB9fQ==")

/-- HMAC-SHA1 of these two cookies and scrypt of Alice's password. -/
def env : Env where
  hmac := fun key text =>
    if key = secret ∧ text = signedText (cookieRef contoso).name value then
      [137, 230, 82, 117, 249, 139, 100, 137, 203, 21, 7, 198, 27, 255, 211, 28, 42, 39, 21, 60]
    else if key = secret ∧ text = signedText (cookieRef contoso).name pendingValue then
      [236, 36, 35, 218, 73, 4, 208, 85, 30, 65, 79, 228, 97, 169, 129, 125, 120, 19, 18, 47]
    else []
  verifyPassword := fun password passwordHash salt =>
    password = utf16 "correct horse" ∧ passwordHash = alice.passwordHash ∧ salt = alice.salt
  baseUrl := utf16 "https://sso.example.test"
  secure := true

def start : State where
  secrets := { sessionSecretEnv := none, read := fun _ => .ok secret }
  users := fun _ => [alice]
  next := 0
  handlers := fun _ => none
  signed := []
  log := []

def query : SsoQuery := ⟨some (.text (utf16 "fVFNS8NAEL0L")), some (utf16 "relay")⟩

def request : AuthnRequestFields where
  id := some (utf16 "_a1")
  issuers := [utf16 "https://github.com/enterprises/contoso"]
  destination := none
  acsUrl := none
  forceAuthn := none

/-- The cookies that Alice has after the login, and another one. -/
def cookies : Option JsString :=
  some (utf16 "theme=dark; sso_session_contoso.sig=ieZSdfmLZInLFQfGG__THConFTw; sso_session_contoso=" ++ value)

/-- Her session, signed by somebody else. -/
def forged : Option JsString :=
  some (utf16 "sso_session_contoso.sig=AAAAAAAAAAAAAAAAAAAAAAAAAAA; sso_session_contoso=" ++ value)

def logins : List Input := [
  .login contoso none (some ⟨some (utf16 "Alice"), some (utf16 "correct horse")⟩),
  .users "contoso" [bob, alice],
  .login contoso none (some ⟨some (utf16 "Bob"), some (utf16 "battery staple?")⟩),
  .verified 1 900,
  .verified 0 1000]

def visits : List Input := [
  .startSso contoso cookies query 2000 2001,
  .secrets { start.secrets with sessionSecretEnv := some (utf16 "default-session-secret") },
  .startSso contoso forged query 2002 2003,
  .parsed 2 (.ok request) 2004,
  .parsed 3 (.error "AuthnRequest is not valid XML.") 2005,
  .users "contoso" [alice],
  .built 2 (.ok ())]

def earlier : List Event := [.requested contoso (some request) (some (utf16 "relay")) 2004,
  .loggedIn contoso alice (utf16 "correct horse")]

theorem initial_start : start.Initial := ⟨fun _ => rfl, rfl, fun _ mem => (List.not_mem_nil mem).elim⟩

theorem log_run : (run env start (logins ++ visits)).log
      = .answered contoso alice request.id (some (utf16 "relay")) 2004 :: earlier
    ∧ (run env start logins).signed = [(secret, signedText (cookieRef contoso).name value)]
    ∧ ssoSessionSecret (run env start logins).secrets contoso = .ok secret
    ∧ readCookie cookies (cookieRef contoso).name = some value
    ∧ (readCookie forged (cookieRef contoso).name).all (fun value =>
      (readCookie forged (signatureName (cookieRef contoso).name)).all fun signature =>
        !hasValidSignature env.hmac (cookieRef contoso).name value signature secret) = true := by
  decide +kernel

theorem authentic_run : AuthenticRun env start (logins ++ visits) := by
  refine authenticRun_append.mpr ⟨⟨trivial, trivial, trivial, ?_, ?_, trivial⟩,
    ?_, trivial, ?_, trivial, trivial, trivial, trivial, trivial⟩
  · rintro enterprise user password cookies ⟨⟩ value signature own read
    cases read
  · rintro enterprise user password cookies ⟨⟩ value signature own read
    cases read
  · intro cookie signature own read _ known _
    obtain ⟨-, signed, secret, sent, -⟩ := log_run
    rw [sent] at read
    rw [secret] at known
    rw [signed, ← Option.some.inj read, ← Except.ok.inj known]
    exact List.mem_singleton_self _
  · intro cookie signature own read isSignature known valid
    have invalid := log_run.2.2.2.2
    rw [read, Option.all_some, isSignature, Option.all_some] at invalid
    obtain rfl : secret = own := Except.ok.inj known
    rw [valid] at invalid
    cases invalid

end Sample

/-- Alice logs in and visits, while Bob guesses a password and somebody comes with a cookie that was not signed here. -/
theorem sign_in_alice : Justified Sample.env Sample.start Sample.earlier Sample.contoso Sample.alice Sample.request.id
    (some (utf16 "relay")) 2004 :=
  sign_in Sample.env Sample.start Sample.initial_start (Sample.logins ++ Sample.visits) Sample.authentic_run _ _ _ _ _ _
    (Sample.log_run.1 ▸ List.suffix_refl _)

end GhcpConsole.Sso.SignIn
