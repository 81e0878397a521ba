import GhcpConsole.Sso.EnsureUser
import GhcpConsole.Sso.EnterpriseSession

/-!
# Signing in

`samlRoutes.ts`, and what `saml.ts` checks of a request. A visit to `/sso` and a login each await something that
is not theirs (the XML of the request, the password hash, the signed response); other requests are answered, users
are changed and secrets are replaced in between. Whatever a request carries is the client's choice.
-/

namespace GhcpConsole.Sso.SignIn

structure StoredUser extends SsoUserRecord where
  createdAt : List Char
  deriving DecidableEq

def getUser (users : List StoredUser) (ssoUser : JsString) : Option StoredUser :=
  users.find? fun user => sqlLower user.ssoUser = sqlLower (JsString.scalars ssoUser)

section Requests

structure SamlUrls where
  idpEntityId : JsString
  idpSsoUrl : JsString
  idpLogoutUrl : JsString
  spEntityId : JsString
  spAcsUrl : JsString
  deriving DecidableEq

def requireEndpoint (enterprise : SsoEnterprise) (field : String) (value : Option JsString) :
    Except String JsString :=
  match value.filter (· ≠ []) with
  | some value => .ok value
  | none => .error (enterprise.id ++ ".sso." ++ field ++ " is not configured.")

def samlUrls (baseUrl : JsString) (enterprise : SsoEnterprise) : Except String SamlUrls := do
  let idpBase := baseUrl ++ enterprise.publicPath
  return {
    idpEntityId := idpBase ++ utf16 "/metadata"
    idpSsoUrl := idpBase ++ utf16 "/sso"
    idpLogoutUrl := idpBase ++ utf16 "/logout"
    spEntityId := ← requireEndpoint enterprise "spEntityId" enterprise.spEntityId
    spAcsUrl := ← requireEndpoint enterprise "spAcsUrl" enterprise.spAcsUrl }

/-- What `readAuthnRequest` finds in the XML. -/
structure AuthnRequestFields where
  id : Option JsString
  issuers : List JsString
  destination : Option JsString
  acsUrl : Option JsString
  forceAuthn : Option JsString
  deriving DecidableEq

def isIdStart (u : CodeUnit) : Bool := (0x41 ≤ u && u ≤ 0x5A) || (0x61 ≤ u && u ≤ 0x7A) || u = codeUnit '_'

def isIdPart (u : CodeUnit) : Bool := isIdStart u || (0x30 ≤ u && u ≤ 0x39) || u = codeUnit '.' || u = codeUnit '-'

/-- `SAML_ID`: `^[A-Za-z_][\w.-]{0,255}$`. -/
def isSamlId : JsString → Bool
  | [] => false
  | u :: rest => isIdStart u && rest.length ≤ 255 && rest.all isIdPart

def parseBoolean (value : Option JsString) : Option Bool :=
  value.map fun text =>
    let normalized := (JsString.trim text).map lowerAscii
    normalized = utf16 "true" || normalized = utf16 "1"

def assertRequestMatches (request : AuthnRequestFields) (urls : SamlUrls) : Except String Unit := do
  if request.id.any (!isSamlId ·) then throw "AuthnRequest ID is not a valid SAML ID."
  if request.issuers ≠ [urls.spEntityId] then throw "AuthnRequest Issuer does not match the service provider."
  if request.destination.any (· ≠ urls.idpSsoUrl) then
    throw "AuthnRequest Destination does not match this identity provider."
  if request.acsUrl.any (· ≠ urls.spAcsUrl) then
    throw "AuthnRequest AssertionConsumerServiceURL does not match the service provider."

end Requests

/-- A value of a query: a text, or several. -/
inductive QueryValue where
  | text (value : JsString)
  | other
  deriving DecidableEq

/-- The query of a visit to `/sso`; a relay state that is not a text counts as none. -/
structure SsoQuery where
  samlRequest : Option QueryValue
  relayState : Option JsString
  deriving DecidableEq

/-- The form of a login; `none` where a value is not a text. -/
structure LoginBody where
  username : Option JsString
  password : Option JsString
  deriving DecidableEq

/-- A request that awaits something. -/
inductive Handler where
  /-- `startSso`: the XML of the request is being read. -/
  | parsing (enterprise : SsoEnterprise) (session : EnterpriseSession) (query : SsoQuery)
  /-- `login`: the password is being hashed. -/
  | verifying (enterprise : SsoEnterprise) (user : StoredUser) (password : JsString) (cookies : Option JsString)
  /-- `respondSaml`: the response is being signed; the session has been read at the time. -/
  | building (enterprise : SsoEnterprise) (session : EnterpriseSession) (user : StoredUser) (readAt : EpochMs)

inductive Response where
  /-- 400 -/
  | invalidRequest (message : String)
  /-- The way to the login page. -/
  | redirect (cookies : List SetCookie)
  /-- 401 -/
  | rejected
  | loggedIn (ssoUser : Name) (cookies : List SetCookie)
  /-- The form with the signed response that was built for the user. -/
  | samlPost (user : StoredUser) (requestId relayState : Option JsString) (cookies : List SetCookie)
  /-- 500, with the headers that had been written. -/
  | failed (message : String) (cookies : List SetCookie)
  deriving DecidableEq

/-- What has happened, for the record. -/
inductive Event where
  /-- A visit to `/sso` was accepted. -/
  | requested (enterprise : SsoEnterprise) (request : Option AuthnRequestFields) (relayState : Option JsString)
      (now : EpochMs)
  /-- The password belonged to the user's row. -/
  | loggedIn (enterprise : SsoEnterprise) (user : StoredUser) (password : JsString)
  /-- A signed response for the user left the service; its session was read at the time. -/
  | answered (enterprise : SsoEnterprise) (user : StoredUser) (requestId relayState : Option JsString)
      (readAt : EpochMs)
  deriving DecidableEq

structure State where
  secrets : Secrets
  /-- The rows of each enterprise. -/
  users : String → List StoredUser
  /-- The number of the next request. -/
  next : Nat
  handlers : Nat → Option Handler
  /-- Every text that was signed, with the secret. -/
  signed : List (JsString × JsString)
  /-- The latest first. -/
  log : List Event

structure Env where
  hmac : JsString → JsString → List UInt8
  /-- scrypt, and the comparison. -/
  verifyPassword : JsString → String → String → Bool
  baseUrl : JsString
  secure : Bool

inductive Input where
  | secrets (secrets : Secrets)
  | users (enterpriseId : String) (rows : List StoredUser)
  | startSso (enterprise : SsoEnterprise) (cookies : Option JsString) (query : SsoQuery) (now later : EpochMs)
  /-- `body`: none where the request has no form. -/
  | login (enterprise : SsoEnterprise) (cookies : Option JsString) (body : Option LoginBody)
  /-- The XML of request `id` has been read, or could not be. -/
  | parsed (id : Nat) (request : Except String AuthnRequestFields) (now : EpochMs)
  | verified (id : Nat) (now : EpochMs)
  /-- `createLoginResponse` of request `id` has ended. -/
  | built (id : Nat) (response : Except String Unit)

namespace State

variable (s : State)

def await (handler : Handler) : State :=
  { s with next := s.next + 1, handlers := fun id => if id = s.next then some handler else s.handlers id }

/-- The request goes on to await something else. -/
def proceed (id : Nat) (handler : Handler) : State :=
  { s with handlers := fun other => if other = id then some handler else s.handlers other }

def finish (id : Nat) : State :=
  { s with handlers := fun other => if other = id then none else s.handlers other }

def record (event : Event) : State := { s with log := event :: s.log }

end State

section Handlers

variable (env : Env)

/-- `writeSession`, with what it signs. -/
def write (enterprise : SsoEnterprise) (session : EnterpriseSession) (s : State) :
    (Except String Unit × List SetCookie) × State :=
  let signed := match ssoSessionSecret s.secrets enterprise with
    | .ok secret => [(secret, signedText (cookieRef enterprise).name (cookieValue session))]
    | .error _ => []
  (writeSession env.hmac s.secrets env.secure enterprise session, { s with signed := signed ++ s.signed })

/-- The user's row as it is now, and the session with it. -/
def currentUser (users : List StoredUser) (session : EnterpriseSession) : Option StoredUser × EnterpriseSession :=
  match session.user with
  | none => (none, session)
  | some sessionUser =>
      match getUser users sessionUser.ssoUser with
      | none => (none, { session with user := none })
      | some user =>
          let createdAt := JsString.ofChars user.createdAt
          if sessionUser.createdAt.any (· ≠ createdAt) then (none, { session with user := none })
          else (some user, { session with user := some ⟨JsString.ofChars user.ssoUser, some createdAt⟩ })

/-- `startSso` once the pending request is in the session. -/
def continueSso (enterprise : SsoEnterprise) (session : EnterpriseSession) (now : EpochMs) (s : State) :
    Sum (State × Handler) (State × Response) :=
  match currentUser (s.users enterprise.id) session with
  | (none, session) =>
      match write env enterprise session s with
      | ((.ok _, cookies), s) => .inr (s, .redirect cookies)
      | ((.error message, cookies), s) => .inr (s, .failed message cookies)
  | (some user, session) => .inl (s, .building enterprise session user now)

/-- A new request ends or awaits something. -/
def begin : Sum (State × Handler) (State × Response) → State × Option Response
  | .inl (s, handler) => (s.await handler, none)
  | .inr (s, response) => (s, some response)

/-- So does one that has awaited something. -/
def resume (id : Nat) : Sum (State × Handler) (State × Response) → State × Option Response
  | .inl (s, handler) => (s.proceed id handler, none)
  | .inr (s, response) => (s.finish id, some response)

def startSso (enterprise : SsoEnterprise) (cookies : Option JsString) (query : SsoQuery) (now later : EpochMs)
    (s : State) : Sum (State × Handler) (State × Response) :=
  match readSession env.hmac s.secrets cookies enterprise now with
  | .error message => .inr (s, .failed message [])
  | .ok session =>
      if query.samlRequest.getD (QueryValue.text []) = QueryValue.text [] then
        continueSso env enterprise { session with pending := some (newPending none query.relayState later) } later
          (s.record (.requested enterprise none query.relayState later))
      else .inl (s, .parsing enterprise session query)

def parsed (enterprise : SsoEnterprise) (session : EnterpriseSession) (query : SsoQuery)
    (request : Except String AuthnRequestFields) (now : EpochMs) (s : State) :
    Sum (State × Handler) (State × Response) :=
  let read := if query.samlRequest = some QueryValue.other then .error "SAMLRequest is required." else request
  let checked := do
    let urls ← samlUrls env.baseUrl enterprise
    let request ← read
    assertRequestMatches request urls
    return request
  match checked with
  | .error message => .inr (s, .invalidRequest ("Invalid SAML request: " ++ message))
  | .ok request =>
      let user := if parseBoolean request.forceAuthn = some true then none else session.user
      continueSso env enterprise
        { session with user := user, pending := some (newPending request.id query.relayState now) } now
        (s.record (.requested enterprise (some request) query.relayState now))

def login (enterprise : SsoEnterprise) (cookies : Option JsString) (body : Option LoginBody) (s : State) :
    Sum (State × Handler) (State × Response) :=
  match body with
  | none => .inr (s, .failed "Cannot destructure property 'username' of 'req.body' as it is undefined." [])
  | some body =>
      match (body.username.filter (· ≠ [])).bind (getUser (s.users enterprise.id)) with
      | none => .inr (s, .rejected)
      | some user => .inl (s, .verifying enterprise user (body.password.getD []) cookies)

def verified (enterprise : SsoEnterprise) (user : StoredUser) (password : JsString) (cookies : Option JsString)
    (now : EpochMs) (s : State) : Sum (State × Handler) (State × Response) :=
  if env.verifyPassword password user.passwordHash user.salt then
    let s := s.record (.loggedIn enterprise user password)
    match readSession env.hmac s.secrets cookies enterprise now with
    | .error message => .inr (s, .failed message [])
    | .ok session =>
        let session := { session with
          user := some ⟨JsString.ofChars user.ssoUser, some (JsString.ofChars user.createdAt)⟩ }
        if session.pending.isSome then .inl (s, .building enterprise session user now)
        else
          match write env enterprise session s with
          | ((.ok _, cookies), s) => .inr (s, .loggedIn user.ssoUser cookies)
          | ((.error message, cookies), s) => .inr (s, .failed message cookies)
  else .inr (s, .rejected)

/-- The pending request is used for one response only. -/
def built (enterprise : SsoEnterprise) (session : EnterpriseSession) (user : StoredUser) (readAt : EpochMs)
    (response : Except String Unit) (s : State) : State × Response :=
  match response with
  | .error message => (s, .failed message [])
  | .ok _ =>
      let requestId := session.pending.bind (·.requestId)
      let relayState := session.pending.bind (·.relayState)
      match write env enterprise { session with pending := none } s with
      | ((.ok _, cookies), s) =>
          (s.record (.answered enterprise user requestId relayState readAt),
            .samlPost user requestId relayState cookies)
      | ((.error message, cookies), s) => (s, .failed message cookies)

def step (s : State) : Input → State × Option Response
  | .secrets secrets => ({ s with secrets := secrets }, none)
  | .users enterpriseId rows =>
      ({ s with users := fun id => if id = enterpriseId then rows else s.users id }, none)
  | .startSso enterprise cookies query now later => begin (startSso env enterprise cookies query now later s)
  | .login enterprise cookies body => begin (login enterprise cookies body s)
  | .parsed id request now =>
      match s.handlers id with
      | some (.parsing enterprise session query) => resume id (parsed env enterprise session query request now s)
      | _ => (s, none)
  | .verified id now =>
      match s.handlers id with
      | some (.verifying enterprise user password cookies) =>
          resume id (verified env enterprise user password cookies now s)
      | _ => (s, none)
  | .built id response =>
      match s.handlers id with
      | some (.building enterprise session user readAt) =>
          resume id (.inr (built env enterprise session user readAt response s))
      | _ => (s, none)

def run (s : State) (inputs : List Input) : State := inputs.foldl (fun s input => (step env s input).1) s

end Handlers

end GhcpConsole.Sso.SignIn
