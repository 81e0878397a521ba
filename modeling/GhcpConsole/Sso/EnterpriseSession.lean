import GhcpConsole.Lib.Base64
import GhcpConsole.Lib.JsonWellFormed
import GhcpConsole.Lib.Utf8
import GhcpConsole.Pool.Scheduling

/-!
# Sessions in signed cookies

`enterpriseSession.ts`. The session of an enterprise is JSON in base64 in one cookie, and the signature of
that cookie is another one. `readSession` takes the header as it comes: any text can stand in it, in any order.
What `writeSession` wrote is read back from wherever it stands (`readSession_written`).
-/

namespace GhcpConsole.Sso

def DEFAULT_ENTERPRISE_ID : String := "default"

inductive SecretRef where
  | env (name : String)
  | file (path : String)
  deriving DecidableEq

/-- An enterprise of the registry, as far as signing in goes. -/
structure SsoEnterprise where
  id : String
  valid : Pool.isEnterpriseId id = true
  sessionSecret : Option SecretRef
  spEntityId : Option JsString
  spAcsUrl : Option JsString
  deriving DecidableEq

def SsoEnterprise.isDefault (enterprise : SsoEnterprise) : Bool := enterprise.id = DEFAULT_ENTERPRISE_ID

/-- The path that the routes of the enterprise are under. -/
def SsoEnterprise.publicPath (enterprise : SsoEnterprise) : JsString :=
  if enterprise.isDefault then [] else utf16 "/enterprises/" ++ utf16 enterprise.id

/-- What the process can read of its secrets at one time. -/
structure Secrets where
  /-- `process.env.SESSION_SECRET` -/
  sessionSecretEnv : Option JsString
  /-- `readSecret` -/
  read : SecretRef → Except String JsString

def DEVELOPMENT_SESSION_SECRET : JsString := utf16 "dev-secret-change-me"

def ssoSessionSecret (secrets : Secrets) (enterprise : SsoEnterprise) : Except String JsString :=
  if enterprise.isDefault ∧ enterprise.sessionSecret = some (.env "SESSION_SECRET")
      ∧ secrets.sessionSecretEnv.getD [] = [] then .ok DEVELOPMENT_SESSION_SECRET
  else
    let unconfigured := .error (enterprise.id ++ ".sso.sessionSecret is not configured.")
    match enterprise.sessionSecret with
    | none => unconfigured
    | some ref => do
        let secret ← secrets.read ref
        if secret = [] then unconfigured else return secret

/-- What `Date.now()` can be: a `Date` is at most 8.64e15 ms after the epoch. -/
abbrev EpochMs := Fin 8640000000000001

instance neZero_epochMs : NeZero 8640000000000001 := ⟨Nat.succ_ne_zero _⟩

def SESSION_MAX_AGE_MS : Nat := 8 * 60 * 60 * 1000

def PENDING_TTL_MS : Nat := 5 * 60 * 1000

structure SessionUser where
  ssoUser : JsString
  /-- Of the row at login; `none` for a cookie of the baseline. -/
  createdAt : Option JsString
  deriving DecidableEq

structure PendingRequest where
  requestId : Option JsString
  relayState : Option JsString
  exp : Double
  deriving DecidableEq

structure EnterpriseSession where
  e : String
  user : Option SessionUser := none
  pending : Option PendingRequest := none
  deriving DecidableEq

structure CookieRef where
  name : JsString
  path : JsString

def DEFAULT_COOKIE_NAME : JsString := utf16 "sso_session"

def cookieRef (enterprise : SsoEnterprise) : CookieRef :=
  if enterprise.isDefault then ⟨DEFAULT_COOKIE_NAME, utf16 "/"⟩
  else ⟨DEFAULT_COOKIE_NAME ++ codeUnit '_' :: utf16 enterprise.id, enterprise.publicPath⟩

/-- The cookie that has the signature of the cookie `name`. -/
def signatureName (name : JsString) : JsString := name ++ utf16 ".sig"

def newPending (requestId relayState : Option JsString) (now : EpochMs) : PendingRequest where
  requestId := requestId
  relayState := relayState
  exp := Double.ofNat (now + PENDING_TTL_MS)

section Reading

def unquote (value : JsString) : JsString :=
  if 1 < value.length ∧ value.head? = some (codeUnit '"') ∧ value.getLast? = some (codeUnit '"') then
    (value.drop 1).dropLast
  else value

/-- The value of the cookie in one part of the header. -/
def cookieIn (name part : JsString) : Option JsString :=
  match indexOf [codeUnit '='] part with
  | some separator =>
      if 0 < separator ∧ JsString.trim (part.take separator) = name then
        some (unquote (JsString.trim (part.drop (separator + 1))))
      else none
  | none => none

def readCookie (header : Option JsString) (name : JsString) : Option JsString :=
  ((header.map (List.splitOn (codeUnit ';'))).getD []).findSome? (cookieIn name)

def decodePayload (value : JsString) : Option JsonValue := JsonValue.parse (Utf8.decode (Base64.decode value))

def string? : Option JsonValue → Option JsString
  | some (.str text) => some text
  | _ => none

def readUser (value : Option JsonValue) : Option SessionUser := do
  let members ← value.bind JsonValue.members?
  let ssoUser ← string? (OrderedMap.get members (utf16 "ssoUser"))
  let createdAt ← string? (OrderedMap.get members (utf16 "createdAt"))
  return ⟨ssoUser, some createdAt⟩

def readPending (value : Option JsonValue) (now : EpochMs) : Option PendingRequest := do
  let members ← value.bind JsonValue.members?
  let .num exp ← OrderedMap.get members (utf16 "exp") | none
  if exp.atMost now then none
  else some ⟨string? (OrderedMap.get members (utf16 "requestId")),
    string? (OrderedMap.get members (utf16 "relayState")), exp⟩

/-- The session of a cookie that the baseline wrote. -/
def legacySession (payload : OrderedMap JsString JsonValue) (now : EpochMs) : EnterpriseSession :=
  let ssoUser := (((OrderedMap.get payload (utf16 "user")).bind JsonValue.members?).bind fun user =>
    string? (OrderedMap.get user (utf16 "ssoUser"))).filter (· ≠ [])
  let pending := match OrderedMap.get payload (utf16 "ssoPending") with
    | some (.bool true) => some (newPending (string? (OrderedMap.get payload (utf16 "pendingInResponseTo")))
        (string? (OrderedMap.get payload (utf16 "pendingRelayState"))) now)
    | _ => none
  { e := DEFAULT_ENTERPRISE_ID, user := ssoUser.map fun name => ⟨name, none⟩, pending := pending }

/-- What the payload of a cookie with a valid signature is to the enterprise. -/
def sessionOf (enterprise : SsoEnterprise) (payload : Option JsonValue) (now : EpochMs) : EnterpriseSession :=
  match payload.bind JsonValue.members? with
  | none => { e := enterprise.id }
  | some members =>
      match OrderedMap.get members (utf16 "e") with
      | none => if enterprise.isDefault then legacySession members now else { e := enterprise.id }
      | some (.str e) =>
          if e = utf16 enterprise.id then
            { e := enterprise.id, user := readUser (OrderedMap.get members (utf16 "user")),
              pending := readPending (OrderedMap.get members (utf16 "pending")) now }
          else { e := enterprise.id }
      | some _ => { e := enterprise.id }

end Reading

/-- What is signed of a cookie. -/
def signedText (name value : JsString) : JsString := name ++ codeUnit '=' :: value

section Signing

-- `createHmac('sha1', secret).update(data).digest()`
variable (hmac : JsString → JsString → List UInt8)

def sign (data secret : JsString) : JsString := Base64.encode true (hmac secret data)

def hasValidSignature (name value signature secret : JsString) : Bool :=
  Utf8.encode signature = Utf8.encode (sign hmac (signedText name value) secret)

/-- The session of the request for this enterprise; an empty one when the cookie is absent or not valid here. -/
def readSession (secrets : Secrets) (header : Option JsString) (enterprise : SsoEnterprise) (now : EpochMs) :
    Except String EnterpriseSession :=
  let name := (cookieRef enterprise).name
  match readCookie header name, readCookie header (signatureName name) with
  | some value, some signature => do
      let secret ← ssoSessionSecret secrets enterprise
      if hasValidSignature hmac name value signature secret then
        return sessionOf enterprise (decodePayload value) now
      else return { e := enterprise.id }
  | _, _ => return { e := enterprise.id }

def userMembers (user : SessionUser) : List (JsString × JsonValue) :=
  [(utf16 "ssoUser", .str user.ssoUser)]
    ++ (user.createdAt.map fun createdAt => (utf16 "createdAt", JsonValue.str createdAt)).toList

def pendingMembers (pending : PendingRequest) : List (JsString × JsonValue) :=
  (pending.requestId.map fun id => (utf16 "requestId", JsonValue.str id)).toList
    ++ (pending.relayState.map fun relayState => (utf16 "relayState", JsonValue.str relayState)).toList
    ++ [(utf16 "exp", .num pending.exp)]

/-- What `JSON.stringify` writes of a session: the members that have a value. -/
def sessionMembers (session : EnterpriseSession) : List (JsString × JsonValue) :=
  [(utf16 "e", .str (utf16 session.e))]
    ++ (session.user.map fun user => (utf16 "user", JsonValue.obj (userMembers user))).toList
    ++ (session.pending.map fun pending => (utf16 "pending", JsonValue.obj (pendingMembers pending))).toList

def cookieValue (session : EnterpriseSession) : JsString :=
  Base64.encode false (Utf8.encode (JsonValue.stringify (.obj (sessionMembers session))))

structure CookieOptions where
  path : JsString
  httpOnly : Bool := true
  sameSite : String := "lax"
  secure : Bool
  maxAge : Option Nat := some SESSION_MAX_AGE_MS
  deriving DecidableEq

/-- One header `Set-Cookie`; the value is written as it is. -/
structure SetCookie where
  name : JsString
  value : JsString
  options : CookieOptions
  deriving DecidableEq

/-- `secure`: the service is known under `https:`. Without a secret the first header has been written. -/
def writeSession (secrets : Secrets) (secure : Bool) (enterprise : SsoEnterprise) (session : EnterpriseSession) :
    Except String Unit × List SetCookie :=
  let cookie := cookieRef enterprise
  let options : CookieOptions := { path := cookie.path, secure := secure }
  let value := cookieValue session
  let written : SetCookie := ⟨cookie.name, value, options⟩
  match ssoSessionSecret secrets enterprise with
  | .ok secret =>
      (.ok (), [written, ⟨signatureName cookie.name, sign hmac (signedText cookie.name value) secret, options⟩])
  | .error message => (.error message, [written])

end Signing

section Names

variable {a b enterprise : SsoEnterprise} {u : CodeUnit}

/-- What the names of the cookies are made of. -/
def isNameUnit (u : CodeUnit) : Bool :=
  (0x61 ≤ u && u ≤ 0x7A) || (0x30 ≤ u && u ≤ 0x39) || u = codeUnit '-' || u = codeUnit '_' || u = codeUnit '.'

theorem isNameUnit_id (mem : u ∈ utf16 enterprise.id) : isNameUnit u = true := by
  have valid := enterprise.valid
  simp only [Pool.isEnterpriseId, Bool.and_eq_true] at valid
  obtain ⟨c, inId, own⟩ := List.mem_flatMap.mp mem
  have kept := List.all_eq_true.mp valid.2 c inId
  have ascii : c.toNat < 0x80 := by
    simp only [Bool.or_eq_true, Bool.and_eq_true, decide_eq_true_eq, Char.le_def, UInt32.le_iff_toNat_le] at kept
    rcases kept with (⟨-, high⟩ | ⟨-, high⟩) | rfl
    · exact Nat.lt_of_le_of_lt high (by decide)
    · exact Nat.lt_of_le_of_lt high (by decide)
    · decide
  have each : ∀ n < 0x80, (('a' ≤ Char.ofNat n && Char.ofNat n ≤ 'z') || ('0' ≤ Char.ofNat n && Char.ofNat n ≤ '9')
      || decide (Char.ofNat n = '-')) = true → isNameUnit (UInt16.ofNat n) = true := by decide
  rw [Char.units, if_pos (by omega), List.mem_singleton] at own
  rw [own]
  refine each c.toNat ascii ?_
  rwa [Char.ofNat_toNat]

theorem isNameUnit_name (mem : u ∈ (cookieRef enterprise).name) : isNameUnit u = true := by
  have base : ∀ u ∈ DEFAULT_COOKIE_NAME, isNameUnit u = true := by decide
  rw [cookieRef] at mem
  split at mem
  · exact base u mem
  · rcases List.mem_append.mp mem with first | later
    · exact base u first
    · rcases List.mem_cons.mp later with rfl | inId
      · decide
      · exact isNameUnit_id inId

theorem isNameUnit_signatureName (mem : u ∈ signatureName (cookieRef enterprise).name) : isNameUnit u = true := by
  have ending : ∀ u ∈ utf16 ".sig", isNameUnit u = true := by decide
  exact (List.mem_append.mp mem).elim isNameUnit_name (ending u)

/-- Two enterprises have two names. -/
theorem id_eq_of_name (same : (cookieRef a).name = (cookieRef b).name) : a.id = b.id := by
  have own : ∀ {a : SsoEnterprise}, a.isDefault = true → a.id = DEFAULT_ENTERPRISE_ID :=
    fun h => of_decide_eq_true h
  by_cases ha : a.isDefault = true <;> by_cases hb : b.isDefault = true
  · rw [own ha, own hb]
  · have longer := congrArg List.length same
    simp [cookieRef, ha, hb] at longer
  · have longer := congrArg List.length same
    simp [cookieRef, ha, hb] at longer
  · rw [cookieRef, cookieRef, if_neg ha, if_neg hb] at same
    exact JsString.utf16_injective (List.cons.inj (List.append_cancel_left same)).2

theorem signedText_inj {name other value value' : JsString} (hname : codeUnit '=' ∉ name)
    (hother : codeUnit '=' ∉ other) (same : signedText name value = signedText other value') :
    name = other ∧ value = value' := by
  have cut : ∀ {name value : JsString}, codeUnit '=' ∉ name →
      (signedText name value).takeWhile (· ≠ codeUnit '=') = name := by
    intro name value absent
    rw [signedText, List.takeWhile_append_of_pos, List.takeWhile_cons_of_neg (by simp), List.append_nil]
    exact fun u mem => decide_eq_true fun found => absent (found ▸ mem)
  have names : name = other := by rw [← cut hname, same, cut hother]
  subst names
  exact ⟨rfl, (List.cons.inj (List.append_cancel_left same)).2⟩

theorem signedText_cookie {value value' : JsString}
    (same : signedText (cookieRef a).name value = signedText (cookieRef b).name value') : a.id = b.id ∧ value = value' := by
  have absent : ∀ enterprise, codeUnit '=' ∉ (cookieRef enterprise).name :=
    fun _ mem => absurd (isNameUnit_name mem) (by decide)
  obtain ⟨names, values⟩ := signedText_inj (absent a) (absent b) same
  exact ⟨id_eq_of_name names, values⟩

end Names

section Payloads

variable {session : EnterpriseSession} {enterprise : SsoEnterprise} {user : SessionUser} {pending : PendingRequest}
  {now : EpochMs}

/-- The time is one that `newPending` computes. -/
def PendingRequest.Whole (pending : PendingRequest) : Prop := ∃ n < 2 ^ 53, pending.exp = Double.ofNat n

theorem now_add_lt (now : EpochMs) : now + PENDING_TTL_MS < 2 ^ 53 := by
  have := now.isLt
  rw [PENDING_TTL_MS]
  omega

theorem whole_newPending (requestId relayState : Option JsString) (now : EpochMs) :
    (newPending requestId relayState now).Whole := by
  refine ⟨now + PENDING_TTL_MS, now_add_lt now, ?_⟩
  rw [newPending]

theorem ordered_of_keys {members : List (JsString × JsonValue)} (keys : List JsString) (nodup : keys.Nodup)
    (names : ∀ key ∈ keys, JsonValue.arrayIndex? key = none) (sub : (members.map (·.1)).Sublist keys) :
    JsonValue.Ordered members :=
  ⟨nodup.sublist sub, fun _ mem => names _ (sub.subset (List.mem_map_of_mem mem))⟩

theorem keys_optional {α : Type} (f : α → JsonValue) (value : Option α) (key : JsString) :
    (((value.map fun a => (key, f a)).toList).map (·.1)).Sublist [key] := by
  cases value with
  | none => exact List.nil_sublist _
  | some a => exact List.Sublist.refl _

theorem reads_optional {α : Type} {f : α → JsonValue} {value : Option α} {key : JsString}
    (reads : ∀ a ∈ value, (f a).Reads) : ∀ member ∈ (value.map fun a => (key, f a)).toList, member.2.Reads := by
  intro member mem
  cases value with
  | none => cases mem
  | some a =>
      rw [List.mem_singleton.mp mem]
      exact reads a rfl

theorem reads_userMembers (user : SessionUser) : (JsonValue.obj (userMembers user)).Reads := by
  refine JsonValue.reads_obj ?_ (ordered_of_keys [utf16 "ssoUser", utf16 "createdAt"] (by decide) (by decide) ?_)
  · rw [userMembers, List.forall_mem_append, List.forall_mem_singleton]
    exact ⟨JsonValue.reads_str, reads_optional fun _ _ => JsonValue.reads_str⟩
  · rw [userMembers, List.map_append]
    exact (List.Sublist.refl _).append (keys_optional _ _ _)

theorem reads_pendingMembers (whole : pending.Whole) : (JsonValue.obj (pendingMembers pending)).Reads := by
  refine JsonValue.reads_obj ?_ (ordered_of_keys [utf16 "requestId", utf16 "relayState", utf16 "exp"]
    (by decide) (by decide) ?_)
  · rw [pendingMembers, List.forall_mem_append, List.forall_mem_append, List.forall_mem_singleton]
    obtain ⟨n, small, exp⟩ := whole
    exact ⟨⟨reads_optional fun _ _ => JsonValue.reads_str, reads_optional fun _ _ => JsonValue.reads_str⟩,
      exp ▸ JsonValue.reads_whole small⟩
  · rw [pendingMembers, List.map_append, List.map_append]
    exact ((keys_optional _ _ _).append (keys_optional _ _ _)).append (List.Sublist.refl _)

theorem reads_sessionMembers (whole : ∀ pending ∈ session.pending, pending.Whole) :
    (JsonValue.obj (sessionMembers session)).Reads := by
  refine JsonValue.reads_obj ?_ (ordered_of_keys [utf16 "e", utf16 "user", utf16 "pending"]
    (by decide) (by decide) ?_)
  · rw [sessionMembers, List.forall_mem_append, List.forall_mem_append, List.forall_mem_singleton]
    exact ⟨⟨JsonValue.reads_str, reads_optional fun user _ => reads_userMembers user⟩,
      reads_optional fun pending mem => reads_pendingMembers (whole pending mem)⟩
  · rw [sessionMembers, List.map_append, List.map_append]
    exact ((List.Sublist.refl _).append (keys_optional _ _ _)).append (keys_optional _ _ _)

theorem decodePayload_cookieValue (whole : ∀ pending ∈ session.pending, pending.Whole) :
    decodePayload (cookieValue session) = some (.obj (sessionMembers session)) := by
  have text : Utf8.decode (Utf8.encode (JsonValue.stringify (.obj (sessionMembers session))))
      = JsonValue.stringify (.obj (sessionMembers session)) := by
    have read := Utf8.decode_encode_append (JsonValue.stringify (.obj (sessionMembers session))) []
    have same := (JsonValue.wellFormed_stringify (.obj (sessionMembers session))).ofChars_scalars_append []
    rw [List.append_nil] at read same
    rw [read, same, show JsString.ofChars (JsString.scalars []) = [] from rfl, List.append_nil,
      show Utf8.decode [] = [] from rfl, List.append_nil]
  rw [decodePayload, cookieValue, Base64.decode_encode, text,
    JsonValue.parse_stringify (reads_sessionMembers whole)]

theorem readUser_userMembers (user : SessionUser) :
    readUser (some (.obj (userMembers user))) = (some user).filter (·.createdAt.isSome) := by
  obtain ⟨ssoUser, createdAt⟩ := user
  cases createdAt <;> rfl

theorem readPending_pendingMembers (pending : PendingRequest) (now : EpochMs) :
    readPending (some (.obj (pendingMembers pending))) now = (some pending).filter (!·.exp.atMost now) := by
  obtain ⟨requestId, relayState, exp⟩ := pending
  have members : readPending (some (.obj (pendingMembers ⟨requestId, relayState, exp⟩))) now
      = if exp.atMost now then none else some ⟨requestId, relayState, exp⟩ := by
    cases requestId <;> cases relayState <;> rfl
  rw [members, Option.filter_some]
  cases exp.atMost now <;> rfl

/-- What was written is read, as far as it is still good. -/
theorem sessionOf_cookieValue (whole : ∀ pending ∈ session.pending, pending.Whole) (own : session.e = enterprise.id)
    (now : EpochMs) : sessionOf enterprise (decodePayload (cookieValue session)) now
      = { e := enterprise.id, user := session.user.filter (·.createdAt.isSome),
          pending := session.pending.filter (!·.exp.atMost now) } := by
  rw [decodePayload_cookieValue whole]
  obtain ⟨e, user, pending⟩ := session
  subst own
  have read : sessionOf enterprise (some (.obj (sessionMembers ⟨enterprise.id, user, pending⟩))) now
      = { e := enterprise.id, user := readUser (user.map fun user => .obj (userMembers user)),
          pending := readPending (pending.map fun pending => .obj (pendingMembers pending)) now } := by
    have first : OrderedMap.get (sessionMembers ⟨enterprise.id, user, pending⟩) (utf16 "e")
        = some (.str (utf16 enterprise.id)) := rfl
    rw [sessionOf, Option.bind_some, JsonValue.members?]
    dsimp only
    rw [first]
    dsimp only
    rw [if_pos rfl]
    cases user <;> cases pending <;> rfl
  rw [read]
  congr 1
  · cases user with
    | none => rfl
    | some user => exact readUser_userMembers user
  · cases pending with
    | none => rfl
    | some pending => exact readPending_pendingMembers pending now

end Payloads

/-- A session that is read is empty, or it is in a cookie with a valid signature. -/
theorem readSession_ok {hmac : JsString → JsString → List UInt8} {secrets : Secrets} {header : Option JsString}
    {enterprise : SsoEnterprise} {session : EnterpriseSession} {now : EpochMs}
    (read : readSession hmac secrets header enterprise now = .ok session) :
    session = { e := enterprise.id } ∨ ∃ value signature secret,
      readCookie header (cookieRef enterprise).name = some value
        ∧ readCookie header (signatureName (cookieRef enterprise).name) = some signature
        ∧ ssoSessionSecret secrets enterprise = .ok secret
        ∧ hasValidSignature hmac (cookieRef enterprise).name value signature secret = true
        ∧ session = sessionOf enterprise (decodePayload value) now := by
  unfold readSession at read
  dsimp only at read
  split at read
  · rename_i value signature hasValue hasSignature
    cases known : ssoSessionSecret secrets enterprise with
    | error message =>
        rw [known] at read
        cases read
    | ok secret =>
        rw [known] at read
        replace read : (if hasValidSignature hmac (cookieRef enterprise).name value signature secret then
            (.ok (sessionOf enterprise (decodePayload value) now) : Except String EnterpriseSession)
          else .ok { e := enterprise.id }) = .ok session := read
        split at read
        · rename_i valid
          exact .inr ⟨value, signature, secret, hasValue, hasSignature, rfl, valid, (Except.ok.inj read).symm⟩
        · exact .inl (Except.ok.inj read).symm
  · exact .inl (Except.ok.inj read).symm

end GhcpConsole.Sso
