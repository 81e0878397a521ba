import GhcpConsole.Enterprise.TrustedUrl
import GhcpConsole.Lib.Json
import GhcpConsole.Lib.LowerCase
import GhcpConsole.Lib.OrderedMap

/-!
# The fields of the enterprise registry

`registryFields.ts`: every field has a kind, and every kind a reader that checks a value and brings
it into its normal form. With `isAllowedLoginUrl` of the login service and the merge of the
environment's fields into the `default` entry (`registryFile.ts`). A normal form is read as itself
except where a URL ends in two slashes.
-/

namespace GhcpConsole.Enterprise

inductive SecretRef where
  | env (name : String)
  | file (path : String)
  deriving DecidableEq

inductive FieldValue (ν : Type) where
  | text (value : List Char)
  | number (value : ν)
  | secret (ref : SecretRef)
  | urls (hrefs : List (List Char))
  deriving DecidableEq

inductive FieldKind where
  | text | githubBaseUrl | url | loginUrl | urlList | slug | shortcode | domain | count | provider | secret
  deriving DecidableEq

structure RegistryError where
  code : String
  field : String
  message : String
  deriving DecidableEq

def invalidRegistryField (field reason : String) : RegistryError where
  code := "enterprise_registry_invalid"
  field := field
  message := s!"{field} {reason}."

def LOGIN_SELECTOR_KEYS : List String :=
  ["deviceCodeInput", "deviceCodeSubmit", "githubLoginInput", "githubLoginSubmit", "githubSsoSubmit",
    "ssoUsernameInput", "ssoPasswordInput", "ssoSubmit", "azureUsernameInput", "azureNextSubmit",
    "azurePasswordInput", "azureSignInSubmit", "azureStaySignedInYes", "azureStaySignedInNo",
    "githubAuthorizeSubmit"]

def SSO_SECRET_KEYS : List String :=
  ["signingCert", "signingKey", "sessionSecret", "scimToken", "seatPat", "defaultUserPassword"]

def FIELD_KINDS : OrderedMap String FieldKind :=
  [("displayName", .text), ("github.baseUrl", .githubBaseUrl), ("github.apiBaseUrl", .url),
    ("github.copilotApiBaseUrl", .url), ("github.slug", .slug), ("github.shortcode", .shortcode),
    ("github.oauthClientId", .text), ("sso.spEntityId", .url), ("sso.spAcsUrl", .url),
    ("sso.scimBaseUrl", .url), ("sso.emailDomain", .domain), ("sso.userPrefix", .text)] ++
  SSO_SECRET_KEYS.map (fun key => ("sso." ++ key, FieldKind.secret)) ++
  [("login.ssoProvider", .provider), ("login.ssoLoginUrl", .loginUrl),
    ("login.allowedLoginUrls", .urlList)] ++
  LOGIN_SELECTOR_KEYS.map (fun key => ("login.selectors." ++ key, FieldKind.text)) ++
  [("pool.accountDomain", .domain), ("pool.initialMaxAccounts", .count),
    ("modelsAdmin.githubLogin", .text), ("modelsAdmin.githubUserId", .text),
    ("modelsAdmin.copilotToken", .secret)]

def MAX_TEXT_LENGTH : Nat := 1024
def MAX_PATH_LENGTH : Nat := 4096
def ACCOUNT_NAME_CAPACITY : Nat := 10000
def MAX_ALLOWED_LOGIN_URLS : Nat := 16

/-- `[\u0000-\u001f\u007f]` -/
def isControlChar (c : Char) : Bool := c.toNat ≤ 0x1F || c.toNat = 0x7F

def isLowerAlnum (c : Char) : Bool := ('a' ≤ c && c ≤ 'z') || ('0' ≤ c && c ≤ '9')

/-- `/^[a-z0-9]{3,8}$/` -/
def isShortcode (text : List Char) : Bool := 3 ≤ text.length && text.length ≤ 8 && text.all isLowerAlnum

/-- `/^[a-z0-9][a-z0-9-]{0,99}$/i` -/
def isSlug (text : List Char) : Bool :=
  match text with
  | [] => false
  | first :: rest =>
      first.isAlphanum && rest.length ≤ 99 && rest.all fun c => c.isAlphanum || c = '-'

/-- `/^[A-Z][A-Z0-9_]{0,127}$/` -/
def isSecretEnvName (text : List Char) : Bool :=
  match text with
  | [] => false
  | first :: rest =>
      first.isUpper && rest.length ≤ 127 && rest.all fun c => c.isUpper || c.isDigit || c = '_'

/-- `/^[a-z0-9](?:[a-z0-9-]{0,61}[a-z0-9])?$/` -/
def isDomainLabel (label : List Char) : Bool :=
  1 ≤ label.length && label.length ≤ 63 && label.all (fun c => isLowerAlnum c || c = '-') &&
    label.head? ≠ some '-' && label.getLast? ≠ some '-'

/-- `/^[a-z]{2,63}$/` -/
def isTopLevelDomain (label : List Char) : Bool :=
  2 ≤ label.length && label.length ≤ 63 && label.all fun c => 'a' ≤ c && c ≤ 'z'

def isEmailDomain (domain : List Char) : Bool :=
  let labels := domain.splitOn '.'
  utf16Length domain ≤ 253 && 2 ≤ labels.length && labels.all isDomainLabel &&
    isTopLevelDomain (labels.getLast?.getD [])

/-- `value.replace(/[?#].*$/s, '')` -/
def beforeQuery (raw : List Char) : List Char := raw.takeWhile fun c => c ≠ '?' && c ≠ '#'

section Readers

variable {ν : Type} [JsInteger ν] (hosts : HostParser) (letters : LowerCase)

def readString : Json ν → Except String (List Char)
  | .str value => .ok (trim value.toList)
  | _ => .error "must be a string"

def readText (value : Json ν) : Except String (List Char) := do
  let result ← readString value
  if result = [] then .error "must not be empty"
  else if MAX_TEXT_LENGTH < utf16Length result || result.any isControlChar then
    .error s!"must be a single line of at most {MAX_TEXT_LENGTH} characters"
  else .ok result

def parseLoginUrl (raw : List Char) : Except String TrustedUrl := parseTrustedUrl hosts (beforeQuery raw)

def readOrigin (value : Json ν) : Except String (List Char) := do
  let url ← parseTrustedUrl hosts (← readString value)
  if 0 < url.segments.length then .error "must be an origin without a path" else .ok url.origin

def DEFAULT_GITHUB_BASE_URL : List Char := "https://github.com".toList

/-- What `parseGithubBaseUrl` of `github.ts` makes of an origin. -/
def parseGithubBaseUrl (rawBaseUrl : List Char) : Except String (List Char) :=
  let raw := if trim rawBaseUrl = [] then DEFAULT_GITHUB_BASE_URL else trim rawBaseUrl
  match (urlParts raw).bind fun (scheme, authority, path) => HttpUrl.parse hosts scheme authority path with
  | none => .error s!"Invalid GITHUB_BASE_URL \"{String.ofList raw}\"."
  | some url =>
      if url.pathname ≠ ['/'] then .error s!"Invalid GITHUB_BASE_URL \"{String.ofList raw}\". Use an origin such as https://github.com or https://<subdomain>.ghe.com."
      else .ok url.origin

def readEntry (item : Json ν) (index : Nat) : Except String (List Char) :=
  match readString item >>= parseLoginUrl hosts with
  | .ok url => .ok url.href
  | .error message => .error s!"[{index}] {message}"

def readUrlList : Json ν → Except String (List (List Char))
  | .arr items =>
      if items.length < 1 || MAX_ALLOWED_LOGIN_URLS < items.length then
        .error s!"must be an array of 1 to {MAX_ALLOWED_LOGIN_URLS} URLs"
      else items.zipIdx.mapM fun (item, index) => readEntry hosts item index
  | _ => .error s!"must be an array of 1 to {MAX_ALLOWED_LOGIN_URLS} URLs"

def readSlug (value : Json ν) : Except String (List Char) := do
  let slug ← readText value
  if isSlug slug then .ok slug else .error "must be a GitHub enterprise slug"

/-- The empty shortcode is kept. -/
def readShortcode (value : Json ν) : Except String (List Char) := do
  let shortcode := letters.toLowerCase (← readString value)
  if shortcode ≠ [] && !isShortcode shortcode then .error "must match ^[a-z0-9]\x7b3,8\x7d$"
  else .ok shortcode

def readDomain (value : Json ν) : Except String (List Char) := do
  let domain := letters.toLowerCase (← readText value)
  if isEmailDomain domain then .ok domain else .error "must be an email domain"

def readCount : Json ν → Except String ν
  | .num value =>
      if (JsInteger.positiveInteger value).any (· ≤ ACCOUNT_NAME_CAPACITY) then .ok value
      else .error s!"must be an integer between 1 and {ACCOUNT_NAME_CAPACITY}"
  | _ => .error s!"must be an integer between 1 and {ACCOUNT_NAME_CAPACITY}"

def readProvider : Json ν → Except String (List Char)
  | .str value =>
      if value = "custom" || value = "azure" then .ok value.toList
      else .error "must be \"custom\" or \"azure\""
  | _ => .error "must be \"custom\" or \"azure\""

/-- An absolute path begins with a slash. -/
def isSecretFilePath (path : String) : Bool :=
  utf16Length path.toList ≤ MAX_PATH_LENGTH && !path.toList.contains '\x00' && path.toList.head? = some '/'

def readSecretRef : Json ν → Except String SecretRef
  | .obj [("env", .str name)] =>
      if isSecretEnvName name.toList then .ok (.env name)
      else .error "must be \x7b\"env\": \"NAME\"\x7d or \x7b\"file\": \"/absolute/path\"\x7d"
  | .obj [("file", .str path)] =>
      if isSecretFilePath path then .ok (.file path)
      else .error "must be \x7b\"env\": \"NAME\"\x7d or \x7b\"file\": \"/absolute/path\"\x7d"
  | _ => .error "must be \x7b\"env\": \"NAME\"\x7d or \x7b\"file\": \"/absolute/path\"\x7d"

/-- `NORMALIZERS` -/
def normalizer (kind : FieldKind) (value : Json ν) : Except String (FieldValue ν) :=
  match kind with
  | .text => .text <$> readText value
  | .githubBaseUrl => .text <$> (readOrigin hosts value >>= parseGithubBaseUrl hosts)
  | .url => (fun url => .text url.href) <$> (readString value >>= parseTrustedUrl hosts)
  | .loginUrl => (fun url => .text url.href) <$> (readString value >>= parseLoginUrl hosts)
  | .urlList => .urls <$> readUrlList hosts value
  | .slug => .text <$> readSlug value
  | .shortcode => .text <$> readShortcode letters value
  | .domain => .text <$> readDomain letters value
  | .count => .number <$> readCount value
  | .provider => .text <$> readProvider value
  | .secret => .secret <$> readSecretRef value

def normalizeField (path : String) (value : Json ν) (label : String) :
    Except RegistryError (FieldValue ν) :=
  match FIELD_KINDS.get path with
  | none => .error (invalidRegistryField label "is not a known field")
  | some kind => (normalizer hosts letters kind value).mapError (invalidRegistryField label)

end Readers

/-! ## The allowlist of the login service -/

section Allowlist

variable (hosts : HostParser)

def isSegmentPrefix (allowed current : TrustedUrl) : Bool :=
  allowed.origin = current.origin && allowed.segments.isPrefixOf current.segments

def tryParseLoginUrl (raw : List Char) : Option TrustedUrl := (parseLoginUrl hosts raw).toOption

def isAllowedLoginUrl (rawUrl : List Char) (allowedUrls : List (List Char)) : Bool :=
  match tryParseLoginUrl hosts rawUrl with
  | none => false
  | some current =>
      allowedUrls.any fun entry =>
        (tryParseLoginUrl hosts entry).any fun allowed => isSegmentPrefix allowed current

end Allowlist

/-! ## The default entry -/

section Default

variable {ν : Type} [JsInteger ν] [DecidableEq ν] (hosts : HostParser) (letters : LowerCase)

/-- A field that a variable of the environment sets, with the value made of the variable. -/
structure EnvSetting (ν : Type) where
  variableName : String
  field : String
  value : Json ν

abbrev ProfileFields (ν : Type) := OrderedMap String (FieldValue ν)

/-- The settings that count: a setting is ignored when an earlier one owns its field. -/
def ownSettings : (owned : List String) → List (EnvSetting ν) → List (EnvSetting ν)
  | _, [] => []
  | owned, setting :: settings =>
      if setting.field ∈ owned then ownSettings owned settings
      else setting :: ownSettings (setting.field :: owned) settings

/-- The fields of `defaultFromEnv`. -/
def envFields (settings : List (EnvSetting ν)) : Except RegistryError (ProfileFields ν) :=
  (ownSettings [] settings).mapM fun setting => do
    let value ← normalizeField hosts letters setting.field setting.value setting.variableName
    pure (setting.field, value)

def FieldValue.toJson : FieldValue ν → Json ν
  | .text value => .str (String.ofList value)
  | .number value => .num value
  | .secret (.env name) => .obj [("env", .str name)]
  | .secret (.file path) => .obj [("file", .str path)]
  | .urls hrefs => .arr (hrefs.map fun href => .str (String.ofList href))

/-- The fields of a `default` entry that has been written out. -/
def readDefault (fields : ProfileFields ν) : Except RegistryError (ProfileFields ν) :=
  fields.mapM fun (field, value) => do
    let value ← normalizeField hosts letters field value.toJson ("default." ++ field)
    pure (field, value)

def conflict (variableName field : String) : RegistryError where
  code := "enterprise_env_conflict"
  field := "default." ++ field
  message := s!"{variableName} conflicts with default.{field} in ENTERPRISE_REGISTRY_FILE; unset one or make them equal."

/-- The loop of `mergeEnvFields`; two values have the same canonical JSON when they are equal. -/
def mergeEnvFields (sources : String → String) (registryFields envFields : ProfileFields ν) :
    Except RegistryError (ProfileFields ν) :=
  envFields.foldlM (fun merged (field, value) =>
    match merged.get field with
    | some registryValue =>
        if registryValue = value then .ok (merged.set field value)
        else .error (conflict (sources field) field)
    | none => .ok (merged.set field value)) registryFields

end Default

end GhcpConsole.Enterprise
