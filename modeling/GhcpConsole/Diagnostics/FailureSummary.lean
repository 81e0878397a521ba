import GhcpConsole.Lib.JsonSyntax
import GhcpConsole.Lib.Lines
import GhcpConsole.Lib.Regex
import GhcpConsole.Lib.TextDecoder
import GhcpConsole.Lib.Unicode
import Mathlib.Data.List.Sort

/-!
# The summary of a failed upstream response

`httpFailureSummary.ts`: what a client is told of the reason why a request failed. The reason comes from the
body of the response, and the values that are not to be shown are taken out of it first.
-/

namespace GhcpConsole.Diagnostics

structure CapturedBody where
  /-- `none` where it is not a `Buffer`. -/
  buffer : Option (List UInt8)
  complete : Bool
  truncated : Bool

structure HttpFailureSummaryInput where
  /-- `none` is a number that is no integer. -/
  status : Option Int
  contentType : Option JsString
  body : Option CapturedBody
  /-- `none` among them is a value that is no string. -/
  sensitiveValues : Option (List (Option JsString))
  diagnosticId : Option JsString

def maxBytes : Nat := 16 * 1024
def maxEvents : Nat := 64
def maxSummary : Nat := 512
def redacted : JsString := utf16 "[redacted]"

section Sets

def isSmallLetter (u : CodeUnit) : Bool := codeUnit 'a' ≤ u && u ≤ codeUnit 'z'

def isLetter (u : CodeUnit) : Bool := isSmallLetter (lowerAscii u)

def isOneOf (characters : String) (u : CodeUnit) : Bool := (utf16 characters).contains u

/-- The characters of `[0-9a-f]`, with the flag `i`. -/
def isHexDigit (u : CodeUnit) : Bool :=
  Double.isDigit u || (codeUnit 'a' ≤ lowerAscii u && lowerAscii u ≤ codeUnit 'f')

end Sets

/-- The sets of the characters of `UUID`, one after the other. -/
def uuidSets : List (CodeUnit → Bool) :=
  List.replicate 8 isHexDigit ++ isOneOf "-" :: List.replicate 4 isHexDigit
    ++ isOneOf "-" :: (fun u => codeUnit '1' ≤ u && u ≤ codeUnit '8') :: List.replicate 3 isHexDigit
    ++ isOneOf "-" :: isOneOf "89abAB" :: List.replicate 3 isHexDigit
    ++ isOneOf "-" :: List.replicate 12 isHexDigit

def isUuid (text : JsString) : Bool :=
  text.length = uuidSets.length && (List.zipWith (· ·) uuidSets text).all id

/-- `IDENTIFIER`. -/
def isIdentifier : JsString → Bool
  | [] => false
  | u :: text =>
      isLetter u && text.all (fun v => isLetter v || Double.isDigit v || isOneOf "_.:-" v) && text.length ≤ 63

section Payload

structure Fields where
  message : Option JsonValue
  code : Option JsonValue
  type : Option JsonValue

def envelopeKeys : List JsString :=
  [utf16 "message", utf16 "code", utf16 "type", utf16 "error", utf16 "status", utf16 "statusCode", utf16 "param",
    utf16 "request_id", utf16 "requestId"]

def isString : Option JsonValue → Bool
  | some (.str _) => true
  | _ => false

/-- `/(?:^|_)error$/.test(type)`. -/
def namesError : Option JsonValue → Bool
  | some (.str type) => type = utf16 "error" || (utf16 "_error").isSuffixOf type
  | _ => false

def fieldsOf (members : OrderedMap JsString JsonValue) : Fields where
  message := members.get (utf16 "message")
  code := members.get (utf16 "code")
  type := members.get (utf16 "type")

def extract (value : JsonValue) : Option Fields :=
  value.members?.bind fun members =>
    match members.get (utf16 "error") with
    | some (.str message) => some ⟨some (.str message), none, none⟩
    | some error => error.members?.map fieldsOf
    | none =>
        let fields := fieldsOf members
        if members.all (fun member => envelopeKeys.contains member.1)
            && (isString fields.message || isString fields.code || namesError fields.type) then
          some fields
        else none

/-- `/^application\/[a-z0-9!#$&^_.+-]+\+json$/.test(mediaType)`. -/
def isJsonSuffixed (mediaType : JsString) : Bool :=
  let subtype := mediaType.drop (utf16 "application/").length
  (utf16 "application/").isPrefixOf mediaType && (utf16 "+json").isSuffixOf subtype
    && (utf16 "+json").length < subtype.length
    && subtype.all fun u => isSmallLetter u || Double.isDigit u || isOneOf "!#$&^_.+-" u

/-- `text.split(/\n\n+/)`. After the first line feeds of a run the others are passed. -/
def splitEvents : Bool → JsString → List JsString
  | _, [] => [[]]
  | inRun, u :: text =>
      if u = lineFeed ∧ inRun then splitEvents true text
      else if u = lineFeed ∧ text.head? = some lineFeed then [] :: splitEvents true text
      else
        match splitEvents false text with
        | event :: events => (u :: event) :: events
        | [] => [[u]]

def eventsOf (text : JsString) : List JsString :=
  splitEvents false (Regex.replace (.text "\r\n") (fun _ => [lineFeed]) text)

/-- The data of an event. -/
def eventData (event : JsString) : JsString :=
  let data := (event.splitOn lineFeed).filter fun line =>
    line = utf16 "data" || (utf16 "data:").isPrefixOf line
  JsString.inLines (data.map fun line =>
    if line = utf16 "data" then []
    else
      let value := line.drop 5
      if value.head? = some (codeUnit ' ') then value.drop 1 else value)

/-- The events whose data is parsed. -/
def parsedData (events : List JsString) : List JsString :=
  (events.map eventData).filter fun data => data ≠ [] && JsString.trim data ≠ utf16 "[DONE]"

def Fields.isUseful (fields : Fields) : Bool :=
  isString fields.message || isString fields.code || isString fields.type

/-- One way of parsing for each media type. The outer `none` is an exception. -/
def parsePayload (text mediaType : JsString) : Option (Option Fields) :=
  if mediaType = utf16 "application/json" ∨ isJsonSuffixed mediaType then
    (JsonValue.parse text).map extract
  else if mediaType ≠ utf16 "text/event-stream" then some none
  else
    let events := eventsOf text
    if maxEvents < (events.filter fun event => JsString.trim event ≠ []).length then some none
    else
      ((parsedData events).mapM JsonValue.parse).map fun values =>
        (values.filterMap extract).find? Fields.isUseful

end Payload

section Redaction

/-- `replace(/\s+/g, ' ')`. -/
def collapse : Bool → JsString → JsString
  | _, [] => []
  | inRun, u :: text =>
      if isWhiteSpace u then
        if inRun then collapse true text else codeUnit ' ' :: collapse true text
      else u :: collapse false text

/-- `replace(/[\p{Cc}\p{Z}]/gu, ' ')`. -/
def spaced (text : JsString) : JsString :=
  text.map fun u => if isControl u || isSeparator u then codeUnit ' ' else u

def normalize (text : JsString) : JsString :=
  JsString.trim (collapse false (spaced (JsString.removeFormat text)))

/-- `value.replace(/^\s*Bearer\s+/i, '')`. -/
def withoutBearer (value : JsString) : JsString :=
  match Regex.match? (.inOrder (.many 0 isWhiteSpace) [.text "bearer", .many 1 isWhiteSpace]) none value with
  | some n => value.drop n
  | none => value

def variants (value : JsString) : List JsString := [normalize value, normalize (withoutBearer value)]

structure Known where
  variants : List JsString := []
  totalLength : Nat := 0

def Known.add (known : Known) (variant : JsString) : Option Known :=
  if variant = [] ∨ variant ∈ known.variants ∨ maxBytes < variant.length then some known
  else
    let next : Known := ⟨known.variants ++ [variant], known.totalLength + variant.length⟩
    if 128 < next.variants.length ∨ maxBytes * 2 < next.totalLength then none else some next

/-- The pattern of all the variants: the first one in the order that the text begins with. -/
def findKnown (known : List JsString) (text : JsString) : Option Nat :=
  (known.find? (·.isPrefixOf text)).map List.length

def replaceKnown (text : JsString) (sensitiveValues : List (Option JsString)) : Option JsString :=
  let values := sensitiveValues.filterMap fun value => value.filter (· ≠ [])
  ((values.flatMap variants).foldlM Known.add {}).map fun known =>
    if known.variants = [] then text
    else
      let sorted := known.variants.insertionSort fun a b => b.length ≤ a.length
      replaceWith (fun _ => findKnown sorted) (fun _ => redacted) none 0 text

def htmlTag : Regex :=
  .inOrder (.one (isOneOf "<")) [.optional (.text "/"), .one (fun u => isLetter u || isOneOf "!" u),
    .many 0 (fun u => !isOneOf ">" u), .text ">"]

def htmlEntity : Regex := .inOrder (.text "&") [.oneOf (.text "lt") [.text "gt"], .text ";"]

def url : Regex :=
  .inOrder (.oneOf
      (.inOrder (.one isLetter) [.many 0 (fun u => isLetter u || Double.isDigit u || isOneOf "+.-" u), .text "://"])
      [.text "www."])
    [.many 1 fun u => !(isWhiteSpace u || isOneOf "<>\"'\x60" u)]

def email : Regex :=
  .inOrder .boundary [.many 1 (fun u => isLetter u || Double.isDigit u || isOneOf "._%+-" u), .text "@",
    .many 1 (fun u => isLetter u || Double.isDigit u || isOneOf ".-" u), .text ".", .many 2 isLetter, .boundary]

def gitHubToken : Regex :=
  .inOrder .boundary
    [.oneOf (.text "github_pat_") [.inOrder (.text "gh") [.one (isOneOf "pousrPOUSR"), .text "_"]],
      .many 1 isWord]

def skToken : Regex := .inOrder .boundary [.text "sk-", .many 1 fun u => isWord u || isOneOf "-" u]

def jsonWebToken : Regex :=
  .inOrder .boundary [.text "eyj", .many 0 (fun u => isWord u || isOneOf "-" u), .text ".",
    .many 1 (fun u => isWord u || isOneOf "-" u), .text ".", .many 1 fun u => isWord u || isOneOf "-" u]

/-- The characters of `[^\s,;]`. -/
def isValue (u : CodeUnit) : Bool := !(isWhiteSpace u || isOneOf ",;" u)

def authScheme : Regex :=
  .inOrder .boundary [.oneOf (.text "bearer") [.text "basic"], .many 1 isWhiteSpace, .many 1 isValue]

def credentialLabel : Regex :=
  let separator : Regex := .one (isOneOf "-_ ")
  .oneOf (.text "authorization")
    [.inOrder (.text "proxy") [separator, .text "authorization"],
      .inOrder (.text "api") [.optional separator, .text "key"],
      .inOrder (.text "access") [.optional separator, .text "token"],
      .inOrder (.text "refresh") [.optional separator, .text "token"],
      .text "token", .text "password", .text "passwd", .text "secret", .text "credential", .text "cookie"]

/-- `"[^"]*"`, with this mark of quotation. -/
def quotedText (mark : String) : Regex :=
  .inOrder (.one (isOneOf mark)) [.many 0 (fun u => !isOneOf mark u), .one (isOneOf mark)]

def labelledCredential : Regex :=
  .inOrder .boundary
    [credentialLabel, .many 0 isWhiteSpace, .optional (.inOrder (.text "provided") [.many 0 isWhiteSpace]),
      .oneOf (.one (isOneOf ":=")) [.inOrder .boundary [.text "is", .boundary], .one isWhiteSpace],
      .many 0 isWhiteSpace,
      .oneOf (quotedText "\"") [quotedText "'", quotedText "\x60", .many 1 isValue]]

/-- `"([^"\n]*)"`, with this mark of quotation. -/
def quotedLine (mark : String) : Regex :=
  .inOrder (.one (isOneOf mark)) [.many 0 (fun u => !isOneOf mark u && u ≠ lineFeed), .one (isOneOf mark)]

def quotedData : Regex := .oneOf (quotedLine "\"") [quotedLine "'", quotedLine "\x60"]

def parameterNames : List JsString :=
  [utf16 "max_tokens", utf16 "max_completion_tokens", utf16 "context_length", utf16 "temperature", utf16 "top_p",
    utf16 "stream", utf16 "model", utf16 "messages", utf16 "tools", utf16 "tool_choice", utf16 "tool_calls",
    utf16 "tool_call_id"]

def isParameter (inner : JsString) : Bool :=
  parameterNames.any fun name => name.isPrefixOf inner
    && (inner.drop name.length).all fun u => isSmallLetter u || Double.isDigit u || isOneOf ".[]_-" u

/-- What is put for quoted data. -/
def putQuoted (chunk : JsString) : JsString :=
  if isParameter ((chunk.drop 1).dropLast) then chunk else redacted

/-- The patterns of what looks like a credential, in the order in which they are replaced. -/
def credentialPatterns : List Regex :=
  [url, email, gitHubToken, skToken, jsonWebToken, authScheme, labelledCredential]

def redactPatterns (text : JsString) : JsString :=
  Regex.replace quotedData putQuoted
    (credentialPatterns.foldl (fun text pattern => Regex.replace pattern (fun _ => redacted) text) text)

def nonEmpty (text : JsString) : Option JsString := if text = [] then none else some text

def sanitize (value : Option JsonValue) (sensitiveValues : List (Option JsString)) : Option JsString :=
  match value with
  | some (.str value) =>
      (replaceKnown (normalize value) sensitiveValues).bind fun text =>
        if Regex.test htmlTag none text || Regex.test htmlEntity none text then none
        else nonEmpty (normalize (redactPatterns text))
  | _ => none

end Redaction

section Summary

/-- `toLowerCase`, as far as the media types go. The Kelvin sign is the only other character with an ASCII
letter alone for its lower case. -/
def lowerUnit (u : CodeUnit) : CodeUnit := if u = 0x212A then codeUnit 'k' else lowerAscii u

variable (input : HttpFailureSummaryInput)

def validStatus : Option Nat :=
  input.status.bind fun status => if 100 ≤ status ∧ status ≤ 599 then some status.toNat else none

def summaryPrefix : JsString := utf16 "HTTP " ++ Double.Decimal.digitUnits ((validStatus input).getD 502)

def reference : JsString :=
  ((input.diagnosticId.filter isUuid).map fun id => utf16 " [ref: " ++ id ++ utf16 "]").getD []

def mediaType : JsString :=
  (input.contentType.map fun contentType =>
    (JsString.trim (contentType.takeWhile (· ≠ codeUnit ';'))).map lowerUnit).getD []

/-- The bytes of a body that is looked at. -/
def capturedBytes : Option (List UInt8) :=
  (validStatus input).bind fun status =>
    input.body.bind fun body =>
      if 200 ≤ status ∧ status < 300 ∨ body.complete ≠ true ∨ body.truncated ≠ false then none
      else body.buffer.filter (·.length ≤ maxBytes)

/-- The fields of the body, and `none` also where an exception is caught. -/
def payloadFields : Option Fields :=
  (capturedBytes input).bind fun bytes =>
    (({} : TextDecoder).fatal bytes).bind fun text =>
      (parsePayload (text.flatMap Char.units) (mediaType input)).join

def sensitive : List (Option JsString) := input.sensitiveValues.getD []

def identifier (value : Option JsonValue) (sensitiveValues : List (Option JsString)) : Option JsString :=
  (sanitize value sensitiveValues).bind fun safe =>
    match value with
    | some (.str value) => if isIdentifier safe ∧ safe = value then some safe else none
    | _ => none

/-- `parts.filter(Boolean).join(separator)`. -/
def joined (separator : String) (parts : List (Option JsString)) : JsString :=
  (utf16 separator).intercalate (parts.filterMap id)

def detailOf (fields : Fields) : JsString :=
  let code := identifier fields.code (sensitive input)
  let type := identifier fields.type (sensitive input)
  let labels := joined ", " [code.map (utf16 "code: " ++ ·), type.map (utf16 "type: " ++ ·)]
  joined " " [sanitize fields.message (sensitive input),
    (nonEmpty labels).map fun labels => utf16 "(" ++ labels ++ utf16 ")"]

def summarizeHttpFailure : JsString :=
  match (payloadFields input).bind fun fields => nonEmpty (detailOf input fields) with
  | none => summaryPrefix input ++ reference input
  | some detail =>
      let summary := JsString.codePoints (summaryPrefix input ++ utf16 ": " ++ detail)
      let budget := maxSummary - (JsString.codePoints (reference input)).length
      (if budget < summary.length then (summary.take (budget - 1)).flatten ++ utf16 "…" else summary.flatten)
        ++ reference input

end Summary

end GhcpConsole.Diagnostics
