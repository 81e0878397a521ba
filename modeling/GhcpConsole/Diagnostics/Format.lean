import GhcpConsole.Lib.JsonRoundTrip

/-!
# Diagnostic records and how they are written

`humanDiagnosticFormat.ts`: a record is written between two marks that carry its id. The line after the
first mark has the summary as JSON; what comes then is for people to read.
-/

namespace GhcpConsole.Diagnostics

/-- The characters of `[0-9a-f-]`. -/
def isIdUnit (u : CodeUnit) : Bool :=
  codeUnit '0' ≤ u && u ≤ codeUnit '9' || codeUnit 'a' ≤ u && u ≤ codeUnit 'f' || u = codeUnit '-'

/-- An id such as `randomUUID` gives. -/
structure DiagnosticId where
  text : JsString
  ne_nil : text ≠ []
  units : ∀ u ∈ text, isIdUnit u = true

/-- A number of bytes, or a status. -/
abbrev Count := Fin (2 ^ 53)

instance Count.neZero : NeZero (2 ^ 53) := ⟨(Nat.two_pow_pos 53).ne'⟩

def Count.number (n : Count) : JsonValue := .num (Double.ofNat n)

def Count.text (n : Count) : JsString := (Double.ofNat n).toText

inductive ProxyErrorDiagnosticFailureKind where
  | http | fetch | stream
  deriving DecidableEq, Repr

def ProxyErrorDiagnosticFailureKind.text : ProxyErrorDiagnosticFailureKind → JsString
  | .http => utf16 "http"
  | .fetch => utf16 "fetch"
  | .stream => utf16 "stream"

inductive RequestPath where
  | chatCompletions | messages | countTokens | responses | models
  deriving DecidableEq, Repr

def RequestPath.text : RequestPath → JsString
  | .chatCompletions => utf16 "/chat/completions"
  | .messages => utf16 "/v1/messages"
  | .countTokens => utf16 "/v1/messages/count_tokens"
  | .responses => utf16 "/responses"
  | .models => utf16 "/v1/models"

structure HttpHeaderPair where
  name : JsString
  value : JsString

inductive BodyEncoding where
  | base64 | utf8 | unavailable
  deriving DecidableEq, Repr

def BodyEncoding.text : BodyEncoding → JsString
  | .base64 => utf16 "base64"
  | .utf8 => utf16 "utf8"
  | .unavailable => utf16 "unavailable"

structure ProxyErrorDiagnosticBodyDto where
  encoding : BodyEncoding
  data : Option JsString
  byteLength : Count
  capturedByteLength : Count
  truncated : Bool
  complete : Bool
  unavailableReason : Option JsString

structure ProxyErrorDiagnosticRequestDto where
  method : JsString
  url : JsString
  headers : List HttpHeaderPair
  body : Option ProxyErrorDiagnosticBodyDto

structure ProxyErrorDiagnosticResponseDto where
  status : Count
  statusText : JsString
  headers : List HttpHeaderPair
  body : Option ProxyErrorDiagnosticBodyDto

structure ProxyErrorDiagnosticThrownErrorDto where
  name : JsString
  message : JsString
  stack : Option JsString
  cause : Option JsString

structure ProxyErrorDiagnosticRecordDto where
  id : DiagnosticId
  timestamp : JsString
  failureKind : ProxyErrorDiagnosticFailureKind
  identity : JsString
  enterpriseId : Option JsString
  path : RequestPath
  model : Option JsString
  redacted : Bool
  inboundRequest : ProxyErrorDiagnosticRequestDto
  upstreamRequest : ProxyErrorDiagnosticRequestDto
  upstreamResponse : Option ProxyErrorDiagnosticResponseDto
  error : Option ProxyErrorDiagnosticThrownErrorDto

/-- The members of `ProxyErrorDiagnosticSummaryDto`; those that are undefined are not written. -/
def toDiagnosticSummary (record : ProxyErrorDiagnosticRecordDto) : OrderedMap JsString JsonValue :=
  let bytes := fun body : Option ProxyErrorDiagnosticBodyDto => (body.elim 0 (·.byteLength)).number
  [(utf16 "id", .str record.id.text), (utf16 "timestamp", .str record.timestamp),
    (utf16 "failureKind", .str record.failureKind.text), (utf16 "identity", .str record.identity)]
  ++ (record.enterpriseId.map fun enterpriseId => (utf16 "enterpriseId", .str enterpriseId)).toList
  ++ [(utf16 "path", .str record.path.text)]
  ++ (record.model.map fun model => (utf16 "model", .str model)).toList
  ++ (record.upstreamResponse.map fun response => (utf16 "status", response.status.number)).toList
  ++ [(utf16 "redacted", .bool record.redacted),
    (utf16 "inboundRequestBodyBytes", bytes record.inboundRequest.body),
    (utf16 "upstreamRequestBodyBytes", bytes record.upstreamRequest.body),
    (utf16 "upstreamResponseBodyBytes", bytes (record.upstreamResponse.bind (·.body)))]

def beginPrefix : JsString := utf16 "===== GHCP PROXY ERROR DIAGNOSTIC BEGIN "
def endPrefix : JsString := utf16 "===== GHCP PROXY ERROR DIAGNOSTIC END "
def metadataPrefix : JsString := utf16 "Metadata: "
def markEnd : JsString := utf16 " ====="

def truth (b : Bool) : JsString := utf16 (if b then "true" else "false")

def headerValue (headers : List HttpHeaderPair) (name : String) : Option JsString :=
  (headers.find? (·.name.map lowerAscii = utf16 name)).map (·.value)

def prettyJson (value : JsString) : JsString := ((JsonValue.parse value).map (JsonValue.pretty 2)).getD value

def shellQuote (value : JsString) : JsString :=
  utf16 "'" ++ JsString.replaceAll (codeUnit '\'') (utf16 "'\"'\"'") value ++ utf16 "'"

/-- `/^https?:\/\//i`. -/
def isAbsoluteUrl (url : JsString) : Bool :=
  let lower := url.map lowerAscii
  (utf16 "http://").isPrefixOf lower || (utf16 "https://").isPrefixOf lower

def absoluteInboundUrl (request : ProxyErrorDiagnosticRequestDto) : JsString :=
  if isAbsoluteUrl request.url then request.url
  else
    let host := (headerValue request.headers "host").getD (utf16 "localhost:3000")
    let forwarded := (headerValue request.headers "x-forwarded-proto").elim [] fun value =>
      JsString.trim (value.takeWhile (· ≠ codeUnit ','))
    let protocol := if forwarded = [] then utf16 "http" else forwarded
    protocol ++ utf16 "://" ++ host
      ++ if (utf16 "/").isPrefixOf request.url then request.url else utf16 "/" ++ request.url

def formatHeaders (headers : List HttpHeaderPair) : JsString :=
  if 0 < headers.length then JsString.inLines (headers.map fun header => header.name ++ utf16 ": " ++ header.value)
  else utf16 "(none)"

def formatBody : Option ProxyErrorDiagnosticBodyDto → JsString
  | none => utf16 "[BODY]\n(none)"
  | some body =>
      let details := (utf16 ", ").intercalate
        [utf16 "encoding=" ++ body.encoding.text, utf16 "observedBytes=" ++ body.byteLength.text,
          utf16 "storedBytes=" ++ body.capturedByteLength.text, utf16 "complete=" ++ truth body.complete,
          utf16 "truncated=" ++ truth body.truncated]
      let first := utf16 "[BODY " ++ details ++ utf16 "]\n"
      if body.encoding = .unavailable then
        first ++ body.unavailableReason.getD (utf16 "(unavailable)")
      else
        match body.data.filter (· ≠ []) with
        | none => first ++ utf16 "(empty)"
        | some data =>
            if body.encoding = .base64 then first ++ utf16 "[Binary body encoded as base64]\n" ++ data
            else first ++ prettyJson data

/-- The lines of a command, each but the last one ending in a reverse solidus. -/
def commandLines (command : List JsString) : JsString := (utf16 " \\\n").intercalate command

def formatCurl (request : ProxyErrorDiagnosticRequestDto) (url diagnosticId : JsString) : JsString :=
  let options := request.headers.filterMap fun header =>
    let normalized := header.name.map lowerAscii
    if normalized = utf16 "host" ∨ normalized = utf16 "content-length" then none
    else some (utf16 "  -H " ++ shellQuote (header.name ++ utf16 ": " ++ header.value))
  let command := [utf16 "curl " ++ shellQuote url, utf16 "  -X " ++ shellQuote request.method] ++ options
  match request.body.bind fun body => (body.data.filter (· ≠ [])).map (body, ·) with
  | none => commandLines command
  | some (body, data) =>
      match body.encoding with
      | .utf8 =>
          let delimiter := utf16 "GHCP_DIAGNOSTIC_BODY_"
            ++ JsString.replaceAll (codeUnit '-') (utf16 "_") diagnosticId
          commandLines (command ++ [utf16 "  --data-binary @- <<'" ++ delimiter ++ utf16 "'"])
            ++ utf16 "\n" ++ prettyJson data ++ utf16 "\n" ++ delimiter
      | .base64 =>
          utf16 "printf %s " ++ shellQuote data ++ utf16 " | base64 -d | " ++ commandLines command
            ++ utf16 " \\\n  --data-binary @-"
      | .unavailable =>
          commandLines command ++ utf16 "\n# Body unavailable: "
            ++ body.unavailableReason.getD (utf16 "unknown reason")

def formatRequest (title : String) (request : ProxyErrorDiagnosticRequestDto) (diagnosticId : JsString)
    (inbound : Bool) : JsString :=
  let url := if inbound then absoluteInboundUrl request else request.url
  JsString.inLines [utf16 "## " ++ utf16 title, [], utf16 "[CURL]", formatCurl request url diagnosticId, [],
    utf16 "[REQUEST LINE]", request.method ++ utf16 " " ++ request.url, [], utf16 "[HEADERS]",
    formatHeaders request.headers, [], formatBody request.body]

def formatResponse (response : ProxyErrorDiagnosticResponseDto) : JsString :=
  JsString.inLines [utf16 "## Upstream response", [], utf16 "[STATUS]",
    JsString.trimEnd (utf16 "HTTP " ++ response.status.text ++ utf16 " " ++ response.statusText), [],
    utf16 "[HEADERS]", formatHeaders response.headers, [], formatBody response.body]

/-- The sections after the summary as JSON. -/
def sections (record : ProxyErrorDiagnosticRecordDto) : List JsString :=
  [[], utf16 "## Summary", utf16 "Timestamp: " ++ record.timestamp,
    utf16 "Diagnostic ID: " ++ record.id.text, utf16 "Failure kind: " ++ record.failureKind.text,
    utf16 "Identity: " ++ record.identity]
  ++ (record.enterpriseId.map fun enterpriseId => utf16 "Enterprise: " ++ enterpriseId).toList
  ++ [utf16 "Path: " ++ record.path.text, utf16 "Model: " ++ record.model.getD (utf16 "-"),
    utf16 "Redacted: " ++ truth record.redacted, [],
    formatRequest "Inbound request" record.inboundRequest record.id.text true, [],
    formatRequest "Actual upstream request" record.upstreamRequest record.id.text false]
  ++ record.upstreamResponse.elim [] (fun response => [[], formatResponse response])
  ++ record.error.elim [] (fun error =>
    [[], utf16 "## Transport / stream error", utf16 "Name: " ++ error.name,
      utf16 "Message: " ++ error.message, utf16 "Cause: " ++ error.cause.getD (utf16 "-"), [],
      utf16 "[STACK]", error.stack.getD (utf16 "-")])
  ++ [[]]

def formatDiagnosticRecord (record : ProxyErrorDiagnosticRecordDto) : JsString :=
  JsString.inLines ([beginPrefix ++ record.id.text ++ markEnd,
      metadataPrefix ++ JsonValue.stringify (.obj (toDiagnosticSummary record))]
    ++ sections record ++ [endPrefix ++ record.id.text ++ markEnd, []])

end GhcpConsole.Diagnostics
