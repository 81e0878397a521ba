import Mathlib.Data.List.Dedup
import GhcpConsole.Lib.Python

/-!
# The identity hook of the LiteLLM proxy

`user_pool_hook.py`: the early hook keeps the hash of the key that LiteLLM has authenticated, in a context
variable; the late hook gives it to a deployment of the pool as `X-User-Identity`, after it has removed
what the request says under that name.
-/

namespace GhcpConsole.Litellm

open Python

inductive ValueError
  | raised
deriving DecidableEq, Repr

/-- What `urlsplit` returns. `port` raises for a port that is no number or out of range. -/
structure SplitResult where
  scheme : Str
  username : Option Str
  password : Option Str
  hostname : Option Str
  port : Except ValueError (Option Nat)
  path : Str
  query : Str
  fragment : Str

def lowerAscii (c : UInt32) : UInt32 := if 'A'.val ≤ c && c ≤ 'Z'.val then c + 32 else c

/-- The functions of the standard library that the hook calls. `str.lower` knows all of Unicode. -/
structure Library where
  lower : Str → Str
  lower_ascii : ∀ s, s.all (· < 128) = true → lower s = s.map lowerAscii
  strip : Str → Str
  urlsplit : Str → Except ValueError SplitResult

structure HTTPException where
  statusCode : Nat
  detail : String
deriving DecidableEq, Repr

def deny : HTTPException := ⟨403, "ghcp_pool_trusted_identity_required"⟩

def identityHeader : Str := text "X-User-Identity"

def headerMaps : List Key := [key "headers", key "extra_headers", key "default_headers"]

def optionContainers : List Key :=
  [key "extra_body", key "litellm_params", key "optional_params", key "proxy_server_request",
    key "body", key "metadata", key "litellm_metadata", key "provider_specific_header"]

section Authentication

/-- An object that LiteLLM passes for `user_api_key_dict`, with its attributes. -/
structure AuthObject where
  userApiKeyAuth : Bool
  attributes : List (String × Value)

def AuthObject.getattr (auth : AuthObject) (field : String) (fallback : Value) : Value :=
  (auth.attributes.lookup field).getD fallback

/-- `[0-9a-f]{64}\Z`. -/
def isHash (s : Str) : Bool :=
  s.length = 64 && s.all fun c => ('0'.val ≤ c && c ≤ '9'.val) || ('a'.val ≤ c && c ≤ 'f'.val)

/-- A string that is a hash. -/
def hash? (value : Value) : Option Str := value.str?.filter isHash

def authenticatedIdentity (auth : AuthObject) : Option Str :=
  if !auth.userApiKeyAuth || !(auth.getattr "via_virtual_key" (.bool false)).isTrue
      || (auth.getattr "is_session_token" (.bool false)).truthy then
    none
  else
    let apiKey := auth.getattr "api_key" .none
    if !apiKey.isNone && (hash? apiKey).isNone then none
    else
      let values := ["token", "hashed_token"].map fun field => auth.getattr field .none
      let present := values.filter fun value => !value.isNone
      match present.mapM hash? with
      | none => none
      | some [] => none
      | some (first :: rest) =>
          if (first :: rest).dedup.length ≠ 1 ∨ (apiKey.isNone = false ∧ hash? apiKey ≠ some first) then none
          else some (text "sha256:" ++ first)

end Authentication

section Cleaning

variable (library : Library)

def isIdentityKey : Key → Bool
  | .str s => library.lower s = library.lower identityHeader
  | .other _ => false

/-- The entries of a mapping without the identity, in their order. -/
def withoutIdentity (entries : Entries) : Entries :=
  entries.filter fun entry => !isIdentityKey library entry.1

def cleanHeaders (value : Value) : Except HTTPException Entries :=
  if value.isNone then .ok []
  else
    match value.mapping? with
    | none => .error deny
    | some entries => .ok (withoutIdentity library entries)

mutual

/-- The keys of a dictionary differ, so that what is set for one comes last in `cleaned`. -/
def cleanOptions : Entries → Except HTTPException Entries
  | [] => .ok []
  | (key, value) :: options =>
      if isIdentityKey library key then cleanOptions options
      else do
        let cleaned ← cleanOption key value
        let rest ← cleanOptions options
        return (key, cleaned) :: rest

def cleanOption (key : Key) : Value → Except HTTPException Value
  | .dict inner =>
      if key ∈ headerMaps then do
        let headers ← cleanHeaders library (.dict inner)
        return .dict headers
      else if key ∈ optionContainers then do
        let options ← cleanOptions inner
        return .dict options
      else return .dict inner
  | value =>
      if key ∈ headerMaps then do
        let headers ← cleanHeaders library value
        return .dict headers
      else return value

end

end Cleaning

section Deployments

variable (library : Library)

structure UrlKey where
  scheme : Str
  hostname : Str
  port : Nat
  path : Str
deriving DecidableEq, Repr

/-- `path.rstrip("/")`. -/
def withoutSlashes (path : Str) : Str := (path.reverse.dropWhile (· = '/'.val)).reverse

def urlKey (value : Value) : Option UrlKey := do
  let url ← value.str?
  if url = [] ∨ url ≠ library.strip url then none
  match library.urlsplit url with
  | .error _ => none
  | .ok parsed =>
      let hostname ← parsed.hostname
      if (parsed.scheme ≠ text "http" ∧ parsed.scheme ≠ text "https") ∨ hostname = []
          ∨ parsed.username ≠ none ∨ parsed.password ≠ none ∨ parsed.query ≠ [] ∨ parsed.fragment ≠ [] then
        none
      match parsed.port with
      | .error _ => none
      | .ok port =>
          -- `parsed.port or ...`: port 0 counts as none
          let standard := if parsed.scheme = text "https" then 443 else 80
          return { scheme := parsed.scheme, hostname := library.lower hostname
                   port := if port.getD 0 = 0 then standard else port.getD 0
                   path := withoutSlashes parsed.path }

structure UserPoolIdentityHook where
  bases : List UrlKey
  nonempty : bases ≠ []

/-- `GHCP_POOL_API_BASES` as a list. -/
def configuredBases (environment : Str) : List Str :=
  ((environment.splitOn ','.val).map library.strip).filter (· ≠ [])

/-- `__init__`, which raises unless every base is the URL of an origin and there is one. -/
def UserPoolIdentityHook.init (apiBases : List Str) : Except ValueError UserPoolIdentityHook :=
  match apiBases.mapM fun base => urlKey library (.str base) with
  | some (first :: rest) => .ok ⟨first :: rest, List.cons_ne_nil first rest⟩
  | _ => .error .raised

variable (hook : UserPoolIdentityHook)

/-- `mapping.get(field)`. -/
def field (entries : Entries) (name : String) : Value := (entries.get (key name)).getD .none

def isPoolDeployment (params : Value) : Bool :=
  match params.mapping? with
  | none => false
  | some params =>
      let effectiveBase := if (field params "base_url").isNone then field params "api_base"
        else field params "base_url"
      (urlKey library effectiveBase).any (· ∈ hook.bases)

/-- The parameters of a deployment that the router proposes. -/
def litellmParams (deployment : Value) : Value :=
  match deployment.mapping? with
  | none => .none
  | some deployment => field deployment "litellm_params"

def asyncFilterDeployments (identity : Option Str) (healthyDeployments : List Value) :
    Except HTTPException (List Value) :=
  if identity.isSome then .ok healthyDeployments
  else
    let remaining := healthyDeployments.filter fun deployment =>
      !isPoolDeployment library hook (litellmParams deployment)
    if remaining.isEmpty && !healthyDeployments.isEmpty then .error deny
    else .ok remaining

/-- `dict(value or {})`, of what cleaning leaves under the name of a header map. -/
def headersOf (cleaned : Entries) (name : String) : Entries :=
  ((field cleaned name).mapping?).getD []

def inject (identity : Str) (cleaned : Entries) (name : String) : Entries :=
  cleaned.set (key name) (.dict ((headersOf cleaned name).set (.str identityHeader) (.str identity)))

/-- A client that the router has cached would send its own default headers. -/
def withoutClient (cleaned : Entries) : Entries :=
  if (cleaned.get (key "client")).isSome then cleaned.set (key "client") .none else cleaned

def asyncPreCallDeploymentHook (identity : Option Str) (kwargs : Entries) :
    Except HTTPException Entries := do
  if !isPoolDeployment library hook (.dict kwargs) then return kwargs
  match identity with
  | none => throw deny
  | some identity =>
      let cleaned ← cleanOptions library kwargs
      return withoutClient (["headers", "extra_headers"].foldl (inject identity) cleaned)

end Deployments

section Contexts

/-- What happens in the tasks of the proxy. A task that is created gets a copy of the context of the task
that creates it; afterwards the two are apart. -/
inductive Event
  | createTask (creator task : Nat)
  | preCall (task : Nat) (auth : AuthObject)
  | filterDeployments (task : Nat) (deployments : List Value)
  | preCallDeployment (task : Nat) (kwargs : Entries)

/-- The context variable in the context of each task. -/
abbrev Contexts := Nat → Option Str

def Event.step : Event → Contexts → Contexts
  | .createTask creator task, contexts => Function.update contexts task (contexts creator)
  | .preCall task auth, contexts => Function.update contexts task (authenticatedIdentity auth)
  | .filterDeployments _ _, contexts => contexts
  | .preCallDeployment _ _, contexts => contexts

/-- The contexts after some events, the latest one first. -/
def contextsAfter : List Event → Contexts
  | [] => fun _ => none
  | event :: earlier => event.step (contextsAfter earlier)

end Contexts

end GhcpConsole.Litellm
