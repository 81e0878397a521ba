import GhcpConsole.Diagnostics.RoundTrip

/-!
# Texts without the id of their record

Nothing that a record is made of has its id, apart from the lines that `formatDiagnosticRecord` puts it
into. Then only the last line of the record begins with its end mark.
-/

namespace GhcpConsole.Diagnostics

variable {id : DiagnosticId} {text u v : JsString} {c : CodeUnit}

/-- The text does not have the id in it. -/
def Free (id : DiagnosticId) (text : JsString) : Prop := ¬ id.text <:+: text

/-- No line of the text begins with the end mark of the id. -/
def Apart (id : DiagnosticId) (text : JsString) : Prop := Unmarked (endLine id.text) (lineFeed :: text)

section Apart

theorem Free.apart (free : Free id text) : Apart id text :=
  unmarked_of_absent fun found => free (List.IsInfix.trans ⟨endPrefix, markEnd, rfl⟩ found)

theorem Apart.unmarked (apart : Apart id text) : Unmarked (endLine id.text) text :=
  apart.of_infix (List.suffix_cons _ _).isInfix

theorem apart_nil : Apart id [] := unmarked_of_absent fun found => by
  rw [List.infix_nil] at found
  cases found

/-- A text behind a label that no mark begins with. -/
theorem apart_labelled (label : String) (begins : (utf16 label).head?.any (· ≠ codeUnit '=') = true)
    (line : lineFeed ∉ utf16 label) (h : Unmarked (endLine id.text) text) : Apart id (utf16 label ++ text) := by
  obtain ⟨c, rest, first⟩ : ∃ c rest, utf16 label = c :: rest := by
    cases chars : utf16 label with
    | nil =>
        rw [chars] at begins
        cases begins
    | cons c rest => exact ⟨c, rest, rfl⟩
  have other : c ≠ codeUnit '=' := by simpa [first] using begins
  have whole := h.append_of_no_lineFeed line
  rw [first] at whole ⊢
  exact Unmarked.lineFeed_cons whole other

theorem apart_label (label : String) (begins : (utf16 label).head?.any (· ≠ codeUnit '=') = true)
    (line : lineFeed ∉ utf16 label) : Apart id (utf16 label) := by
  rw [← List.append_nil (utf16 label)]
  exact apart_labelled label begins line apart_nil.unmarked

theorem Apart.line (hu : Apart id u) (hv : Apart id v) : Apart id (u ++ lineFeed :: v) :=
  Unmarked.append_lineFeed (u := lineFeed :: u) hu hv (lineFeed_not_mem_endLine id.units)

theorem apart_inLines {parts : List JsString} (h : ∀ part ∈ parts, Apart id part) :
    Apart id (JsString.inLines parts) := by
  induction parts with
  | nil => exact apart_nil
  | cons part parts ih =>
      cases parts with
      | nil =>
          rw [JsString.inLines, List.intercalate_singleton]
          exact h part List.mem_cons_self
      | cons next parts =>
          rw [JsString.inLines_cons part (List.cons_ne_nil _ _)]
          exact (h part List.mem_cons_self).line (ih fun other mem => h other (List.mem_cons_of_mem _ mem))

/-- A character that is not in a mark. -/
def Separates (c : CodeUnit) : Prop :=
  c ≠ lineFeed ∧ isIdUnit c = false ∧ c ∉ endPrefix ∧ c ∉ markEnd

instance : Decidable (Separates c) := inferInstanceAs (Decidable (_ ∧ _ ∧ _ ∧ _))

theorem Separates.not_mem (h : Separates c) : c ∉ lineFeed :: endLine id.text := by
  rw [List.mem_cons, not_or]
  exact ⟨h.1, not_mem_endLine id.units h.2.1 h.2.2.1 h.2.2.2⟩

theorem unmarked_separated (h : Separates c) (hu : Unmarked (endLine id.text) u)
    (hv : Unmarked (endLine id.text) v) : Unmarked (endLine id.text) (u ++ c :: v) :=
  hu.append_cons hv h.not_mem

/-- A line that goes on in the next one. -/
theorem Apart.continued (hu : Apart id u) (hv : Apart id v) : Apart id (u ++ utf16 " \\\n" ++ v) := by
  have space : (lineFeed :: endLine id.text).getLast? ≠ some (codeUnit ' ') := by
    rw [endLine, List.getLast?_cons, List.getLast?_append_of_ne_nil _ (by decide)]
    decide
  have solidus : Separates (codeUnit '\\') := by decide
  have first : Apart id (u ++ [codeUnit ' '] ++ [codeUnit '\\']) := by
    have spaced : Unmarked (endLine id.text) (lineFeed :: u ++ [codeUnit ' ']) := Unmarked.concat hu space
    exact unmarked_separated solidus spaced apart_nil.unmarked
  have whole := first.line hv
  rw [List.append_assoc, List.append_assoc] at whole
  rw [List.append_assoc]
  exact whole

theorem apart_commandLines {command : List JsString} (h : ∀ part ∈ command, Apart id part) :
    Apart id (commandLines command) := by
  induction command with
  | nil => exact apart_nil
  | cons part command ih =>
      cases command with
      | nil =>
          rw [commandLines, List.intercalate_singleton]
          exact h part List.mem_cons_self
      | cons next command =>
          rw [commandLines, List.intercalate_cons_of_ne_nil (List.cons_ne_nil _ _)]
          exact (h part List.mem_cons_self).continued (ih fun other mem => h other (List.mem_cons_of_mem _ mem))

end Apart

section Texts

theorem unmarked_replaceAll (h : Unmarked (endLine id.text) text) :
    Unmarked (endLine id.text) (JsString.replaceAll (codeUnit '\'') (utf16 "'\"'\"'") text) := by
  have separates : ∀ c ∈ utf16 "'\"'\"'", Separates c := by decide
  exact fun found => h (infix_of_infix_replaceAll (fun c mem => (separates c mem).not_mem) (by decide)
    (List.cons_ne_nil _ _) found)

theorem unmarked_shellQuote_append (h : Unmarked (endLine id.text) text) (hv : Unmarked (endLine id.text) v) :
    Unmarked (endLine id.text) (shellQuote text ++ v) := by
  have quote : Separates (codeUnit '\'') := by decide
  have last := unmarked_separated quote (unmarked_replaceAll h) hv
  have whole := unmarked_separated quote apart_nil.unmarked last
  rw [shellQuote, List.append_assoc, List.append_assoc]
  exact whole

theorem unmarked_shellQuote (h : Unmarked (endLine id.text) text) :
    Unmarked (endLine id.text) (shellQuote text) := by
  rw [← List.append_nil (shellQuote text)]
  exact unmarked_shellQuote_append h apart_nil.unmarked

theorem apart_prettyJson (free : Free id text) : Apart id (prettyJson text) := by
  rw [prettyJson]
  cases JsonValue.parse text with
  | none => exact free.apart
  | some value => exact (JsonValue.unmarked_pretty value).weaken

theorem apart_header {header : HttpHeaderPair} (name : Free id header.name) (value : Free id header.value) :
    Apart id (header.name ++ utf16 ": " ++ header.value) := by
  have colon : Separates (codeUnit ':') := by decide
  have spaced : Unmarked (endLine id.text) (codeUnit ' ' :: header.value) :=
    value.apart.unmarked.cons (by decide)
  rw [List.append_assoc]
  exact unmarked_separated colon name.apart spaced

end Texts

section Fields

def HttpHeaderPair.texts (header : HttpHeaderPair) : List JsString := [header.name, header.value]

def ProxyErrorDiagnosticBodyDto.texts (body : ProxyErrorDiagnosticBodyDto) : List JsString :=
  body.data.toList ++ body.unavailableReason.toList

def ProxyErrorDiagnosticRequestDto.texts (request : ProxyErrorDiagnosticRequestDto) : List JsString :=
  [request.method, request.url] ++ request.headers.flatMap HttpHeaderPair.texts
    ++ request.body.elim [] ProxyErrorDiagnosticBodyDto.texts

def ProxyErrorDiagnosticResponseDto.texts (response : ProxyErrorDiagnosticResponseDto) : List JsString :=
  [response.statusText] ++ response.headers.flatMap HttpHeaderPair.texts
    ++ response.body.elim [] ProxyErrorDiagnosticBodyDto.texts

def ProxyErrorDiagnosticThrownErrorDto.texts (error : ProxyErrorDiagnosticThrownErrorDto) : List JsString :=
  [error.name, error.message] ++ error.stack.toList ++ error.cause.toList

/-- The texts that a record is made of, apart from its id. -/
def ProxyErrorDiagnosticRecordDto.texts (record : ProxyErrorDiagnosticRecordDto) : List JsString :=
  [record.timestamp, record.identity] ++ record.enterpriseId.toList ++ record.model.toList
    ++ record.inboundRequest.texts ++ record.upstreamRequest.texts
    ++ record.upstreamResponse.elim [] ProxyErrorDiagnosticResponseDto.texts
    ++ record.error.elim [] ProxyErrorDiagnosticThrownErrorDto.texts

variable {headers : List HttpHeaderPair} {body : ProxyErrorDiagnosticBodyDto}
  {request : ProxyErrorDiagnosticRequestDto} {response : ProxyErrorDiagnosticResponseDto}
  {record : ProxyErrorDiagnosticRecordDto}

theorem apart_formatHeaders (free : ∀ t ∈ headers.flatMap HttpHeaderPair.texts, Free id t) :
    Apart id (formatHeaders headers) := by
  unfold formatHeaders
  split
  · refine apart_inLines fun part mem => ?_
    obtain ⟨header, inHeaders, rfl⟩ := List.mem_map.mp mem
    exact apart_header (free _ (List.mem_flatMap_of_mem inHeaders (by simp [HttpHeaderPair.texts])))
      (free _ (List.mem_flatMap_of_mem inHeaders (by simp [HttpHeaderPair.texts])))
  · exact apart_label "(none)" (by decide) (by decide)

theorem not_mem_details (body : ProxyErrorDiagnosticBodyDto) : lineFeed ∉ (utf16 ", ").intercalate
    [utf16 "encoding=" ++ body.encoding.text, utf16 "observedBytes=" ++ body.byteLength.text,
      utf16 "storedBytes=" ++ body.capturedByteLength.text, utf16 "complete=" ++ truth body.complete,
      utf16 "truncated=" ++ truth body.truncated] := by
  have count : ∀ n : Count, lineFeed ∉ n.text := fun n mem =>
    absurd (Double.units_toText _ _ mem) (by decide)
  have flag : ∀ b : Bool, lineFeed ∉ truth b := by decide
  have encoding : lineFeed ∉ body.encoding.text := by
    cases body.encoding <;> decide
  have names : ∀ name ∈ [", ", "encoding=", "observedBytes=", "storedBytes=", "complete=", "truncated="],
      lineFeed ∉ utf16 name := by decide
  simp only [List.forall_mem_cons] at names
  obtain ⟨comma, name₁, name₂, name₃, name₄, name₅, _⟩ := names
  simp only [List.intercalate_cons_cons, List.intercalate_singleton, List.mem_append, not_or]
  exact ⟨⟨⟨name₁, encoding⟩, comma⟩, ⟨⟨name₂, count _⟩, comma⟩, ⟨⟨name₃, count _⟩, comma⟩,
    ⟨⟨name₄, flag _⟩, comma⟩, name₅, flag _⟩

theorem apart_formatBody {body : Option ProxyErrorDiagnosticBodyDto}
    (free : ∀ t ∈ body.elim [] ProxyErrorDiagnosticBodyDto.texts, Free id t) : Apart id (formatBody body) := by
  cases body with
  | none =>
      have lines : formatBody none = utf16 "[BODY]" ++ lineFeed :: utf16 "(none)" := by decide
      rw [lines]
      exact (apart_label "[BODY]" (by decide) (by decide)).line (apart_label "(none)" (by decide) (by decide))
  | some body =>
      have first : ∀ {rest : JsString}, Apart id rest → Apart id (utf16 "[BODY " ++ (utf16 ", ").intercalate
          [utf16 "encoding=" ++ body.encoding.text, utf16 "observedBytes=" ++ body.byteLength.text,
            utf16 "storedBytes=" ++ body.capturedByteLength.text, utf16 "complete=" ++ truth body.complete,
            utf16 "truncated=" ++ truth body.truncated] ++ utf16 "]\n" ++ rest) := by
        intro rest apart
        have bracket : utf16 "]\n" = utf16 "]" ++ [lineFeed] := by decide
        have line : lineFeed ∉ (utf16 ", ").intercalate _ ++ utf16 "]" := fun mem =>
          (List.mem_append.mp mem).elim (not_mem_details body) (by decide)
        have whole := (apart_labelled "[BODY " (by decide) (by decide) (unmarked_of_not_mem line)).line apart
        rw [bracket]
        simp only [List.append_assoc, List.singleton_append] at whole ⊢
        exact whole
      unfold formatBody
      dsimp only
      split
      · cases reason : body.unavailableReason with
        | none => exact first (apart_label "(unavailable)" (by decide) (by decide))
        | some reason =>
            exact first (free _ (by simp [ProxyErrorDiagnosticBodyDto.texts, *])).apart
      · split
        · exact first (apart_label "(empty)" (by decide) (by decide))
        · rename_i data given
          have freeData : Free id data := by
            refine free data ?_
            obtain ⟨given, _⟩ := Option.filter_eq_some_iff.mp given
            simp [ProxyErrorDiagnosticBodyDto.texts, given]
          split
          · have binary : utf16 "[Binary body encoded as base64]\n"
                = utf16 "[Binary body encoded as base64]" ++ [lineFeed] := by decide
            rw [List.append_assoc _ (utf16 "[Binary body encoded as base64]\n"), binary, List.append_assoc _ [lineFeed]]
            exact first ((apart_label "[Binary body encoded as base64]" (by decide) (by decide)).line
              freeData.apart)
          · exact first (apart_prettyJson freeData)

/-- Options of a command: a label and a quoted text. -/
theorem apart_option (label : String) (begins : (utf16 label).head?.any (· ≠ codeUnit '=') = true)
    (line : lineFeed ∉ utf16 label) (h : Unmarked (endLine id.text) text) :
    Apart id (utf16 label ++ shellQuote text) :=
  apart_labelled label begins line (unmarked_shellQuote h)

theorem lineFeed_not_mem_delimiter : lineFeed ∉ utf16 "GHCP_DIAGNOSTIC_BODY_"
    ++ JsString.replaceAll (codeUnit '-') (utf16 "_") id.text := by
  intro mem
  rcases List.mem_append.mp mem with inLabel | inId
  · exact absurd inLabel (by decide)
  · obtain ⟨u, inText, replaced⟩ := List.mem_flatMap.mp inId
    split at replaced
    · exact absurd replaced (by decide)
    · rw [← List.mem_singleton.mp replaced] at inText
      exact absurd (id.units lineFeed inText) (by decide)

theorem apart_options {headers : List HttpHeaderPair} (free : ∀ t ∈ headers.flatMap HttpHeaderPair.texts, Free id t) :
    ∀ part ∈ headers.filterMap (fun header =>
      let normalized := header.name.map lowerAscii
      if normalized = utf16 "host" ∨ normalized = utf16 "content-length" then none
      else some (utf16 "  -H " ++ shellQuote (header.name ++ utf16 ": " ++ header.value))), Apart id part := by
  intro part mem
  obtain ⟨header, inHeaders, option⟩ := List.mem_filterMap.mp mem
  dsimp only at option
  split at option
  · cases option
  · cases option
    have apart : Apart id (header.name ++ utf16 ": " ++ header.value) :=
      apart_header (free _ (List.mem_flatMap_of_mem inHeaders (by simp [HttpHeaderPair.texts])))
        (free _ (List.mem_flatMap_of_mem inHeaders (by simp [HttpHeaderPair.texts])))
    exact apart_option "  -H " (by decide) (by decide) apart.unmarked

variable {command : List JsString} {data : JsString}

/-- A command that gets the body from the lines below it. -/
theorem apart_heredoc (h : ∀ part ∈ command, Apart id part) (free : Free id data) :
    Apart id (commandLines (command ++ [utf16 "  --data-binary @- <<'" ++ (utf16 "GHCP_DIAGNOSTIC_BODY_"
        ++ JsString.replaceAll (codeUnit '-') (utf16 "_") id.text) ++ utf16 "'"])
      ++ utf16 "\n" ++ prettyJson data ++ utf16 "\n"
      ++ (utf16 "GHCP_DIAGNOSTIC_BODY_" ++ JsString.replaceAll (codeUnit '-') (utf16 "_") id.text)) := by
  have last : Apart id (utf16 "GHCP_DIAGNOSTIC_BODY_"
      ++ JsString.replaceAll (codeUnit '-') (utf16 "_") id.text) := by
    refine apart_labelled "GHCP_DIAGNOSTIC_BODY_" (by decide) (by decide) (unmarked_of_not_mem ?_)
    exact fun mem => lineFeed_not_mem_delimiter (List.mem_append_right _ mem)
  have heredoc : Apart id (utf16 "  --data-binary @- <<'" ++ (utf16 "GHCP_DIAGNOSTIC_BODY_"
      ++ JsString.replaceAll (codeUnit '-') (utf16 "_") id.text) ++ utf16 "'") := by
    rw [List.append_assoc]
    refine apart_labelled "  --data-binary @- <<'" (by decide) (by decide) (unmarked_of_not_mem ?_)
    exact fun mem => (List.mem_append.mp mem).elim lineFeed_not_mem_delimiter (by decide)
  have lines : ∀ part ∈ command ++ [_], Apart id part := fun part mem =>
    (List.mem_append.mp mem).elim (h part) fun single => List.mem_singleton.mp single ▸ heredoc
  have whole := ((apart_commandLines lines).line (apart_prettyJson free)).line last
  have feed : utf16 "\n" = [lineFeed] := by decide
  rw [feed, List.append_assoc (commandLines _), List.append_assoc _ [lineFeed]]
  exact whole

/-- A command that gets the body from another one. -/
theorem apart_pipe (h : ∀ part ∈ command, Apart id part) (free : Free id data) :
    Apart id (utf16 "printf %s " ++ shellQuote data ++ utf16 " | base64 -d | " ++ commandLines command
      ++ utf16 " \\\n  --data-binary @-") := by
  have lines := (apart_commandLines h).continued (apart_label "  --data-binary @-" (by decide) (by decide))
  have piped := lines.unmarked.append_of_no_lineFeed (u := utf16 " | base64 -d | ") (by decide)
  have whole := apart_labelled "printf %s " (by decide) (by decide)
    (unmarked_shellQuote_append free.apart.unmarked piped)
  have last : utf16 " \\\n  --data-binary @-" = utf16 " \\\n" ++ utf16 "  --data-binary @-" := by decide
  rw [last]
  simp only [List.append_assoc] at whole ⊢
  exact whole

theorem apart_formatCurl {url : JsString} (free : ∀ t ∈ request.texts, Free id t)
    (hurl : Unmarked (endLine id.text) url) : Apart id (formatCurl request url id.text) := by
  have method : Free id request.method := free _ (by simp [ProxyErrorDiagnosticRequestDto.texts])
  have options := apart_options fun t (mem : t ∈ request.headers.flatMap HttpHeaderPair.texts) =>
    free t (List.mem_append_left _ (List.mem_append_right _ mem))
  unfold formatCurl
  dsimp only at options ⊢
  generalize request.headers.filterMap _ = options' at options ⊢
  have command : ∀ part ∈ [utf16 "curl " ++ shellQuote url, utf16 "  -X " ++ shellQuote request.method]
      ++ options', Apart id part := by
    intro part mem
    rcases List.mem_append.mp mem with first | inOptions
    · rcases List.mem_cons.mp first with rfl | second
      · exact apart_option "curl " (by decide) (by decide) hurl
      · rw [List.mem_singleton.mp second]
        exact apart_option "  -X " (by decide) (by decide) method.apart.unmarked
    · exact options part inOptions
  have body : ∀ body, request.body = some body → ∀ t ∈ body.texts, Free id t := fun body given t mem =>
    free t (List.mem_append_right _ (by rw [given]; exact mem))
  cases given : request.body with
  | none => exact apart_commandLines command
  | some sent =>
      rw [Option.bind_some]
      cases filled : sent.data.filter (· ≠ []) with
      | none => exact apart_commandLines command
      | some data =>
          have freeData : Free id data := by
            refine body sent given data ?_
            obtain ⟨inBody, _⟩ := Option.filter_eq_some_iff.mp filled
            simp [ProxyErrorDiagnosticBodyDto.texts, inBody]
          dsimp only [Option.map_some]
          cases sent.encoding with
          | utf8 => exact apart_heredoc command freeData
          | base64 => exact apart_pipe command freeData
          | unavailable =>
              have reason : Unmarked (endLine id.text)
                  (sent.unavailableReason.getD (utf16 "unknown reason")) := by
                cases because : sent.unavailableReason with
                | none => exact unmarked_of_not_mem (by decide)
                | some reason =>
                    have free := body sent given reason (by simp [ProxyErrorDiagnosticBodyDto.texts, because])
                    exact free.apart.unmarked
              have whole := (apart_commandLines command).line
                (apart_labelled "# Body unavailable: " (by decide) (by decide) reason)
              have feed : utf16 "\n# Body unavailable: " = lineFeed :: utf16 "# Body unavailable: " := by decide
              dsimp only
              rw [feed, List.append_assoc (commandLines _)]
              exact whole

/-- The text of a header is one of the texts of the request. -/
theorem free_headerValue {name : String} {value : JsString}
    (free : ∀ t ∈ headers.flatMap HttpHeaderPair.texts, Free id t) (h : headerValue headers name = some value) :
    Free id value := by
  obtain ⟨header, found, rfl⟩ := Option.map_eq_some_iff.mp h
  exact free _ (List.mem_flatMap_of_mem (List.mem_of_find?_eq_some found) (by simp [HttpHeaderPair.texts]))

theorem unmarked_absoluteInboundUrl (free : ∀ t ∈ request.texts, Free id t) :
    Unmarked (endLine id.text) (absoluteInboundUrl request) := by
  have url : Free id request.url := free _ (by simp [ProxyErrorDiagnosticRequestDto.texts])
  have headers : ∀ t ∈ request.headers.flatMap HttpHeaderPair.texts, Free id t := fun t mem =>
    free t (List.mem_append_left _ (List.mem_append_right _ mem))
  have host : Unmarked (endLine id.text)
      ((headerValue request.headers "host").getD (utf16 "localhost:3000")) := by
    cases given : headerValue request.headers "host" with
    | none => exact unmarked_of_not_mem (by decide)
    | some value => exact (free_headerValue headers given).apart.unmarked
  have proto : Unmarked (endLine id.text)
      ((headerValue request.headers "x-forwarded-proto").elim [] fun value =>
        JsString.trim (value.takeWhile (· ≠ codeUnit ','))) := by
    cases given : headerValue request.headers "x-forwarded-proto" with
    | none => exact apart_nil.unmarked
    | some value =>
        exact (free_headerValue headers given).apart.unmarked.of_infix
          ((JsString.infix_trim _).trans (List.takeWhile_prefix _).isInfix)
  have colon : Separates (codeUnit ':') := by decide
  have slash : Separates (codeUnit '/') := by decide
  unfold absoluteInboundUrl
  dsimp only
  split
  · exact url.apart.unmarked
  · generalize (headerValue request.headers "x-forwarded-proto").elim [] _ = forwarded at proto ⊢
    have protocol : Unmarked (endLine id.text) (if forwarded = [] then utf16 "http" else forwarded) := by
      split
      · exact unmarked_of_not_mem (by decide)
      · exact proto
    obtain ⟨path, apart, begins⟩ : ∃ path, Unmarked (endLine id.text) path
        ∧ (if (utf16 "/").isPrefixOf request.url then request.url else utf16 "/" ++ request.url)
          = codeUnit '/' :: path := by
      split
      · rename_i absolute
        obtain ⟨path, same⟩ := List.isPrefixOf_iff_prefix.mp absolute
        rw [← same] at url
        exact ⟨path, url.apart.unmarked.of_infix (List.suffix_append _ _).isInfix, same.symm⟩
      · exact ⟨request.url, url.apart.unmarked, rfl⟩
    rw [begins, List.append_assoc, List.append_assoc]
    have whole := unmarked_separated slash host apart
    have slashes := unmarked_separated slash apart_nil.unmarked (unmarked_separated slash apart_nil.unmarked whole)
    exact unmarked_separated colon protocol slashes

theorem apart_formatRequest {title : String} {inbound : Bool} (free : ∀ t ∈ request.texts, Free id t)
    (line : lineFeed ∉ utf16 title) : Apart id (formatRequest title request id.text inbound) := by
  have url : Free id request.url := free _ (by simp [ProxyErrorDiagnosticRequestDto.texts])
  have method : Free id request.method := free _ (by simp [ProxyErrorDiagnosticRequestDto.texts])
  have target : Unmarked (endLine id.text) (if inbound then absoluteInboundUrl request else request.url) := by
    split
    · exact unmarked_absoluteInboundUrl free
    · exact url.apart.unmarked
  have requestLine : Free id (request.method ++ utf16 " " ++ request.url) := by
    have space : codeUnit ' ' ∉ id.text := fun mem => absurd (id.units _ mem) (by decide)
    intro found
    rw [List.append_assoc] at found
    exact (infix_append_cons space found).elim method url
  unfold formatRequest
  refine apart_inLines ?_
  simp only [List.forall_mem_cons]
  exact ⟨apart_labelled "## " (by decide) (by decide) (unmarked_of_not_mem line), apart_nil,
    apart_label "[CURL]" (by decide) (by decide), apart_formatCurl free target, apart_nil,
    apart_label "[REQUEST LINE]" (by decide) (by decide), requestLine.apart, apart_nil,
    apart_label "[HEADERS]" (by decide) (by decide),
    apart_formatHeaders fun t mem => free t (List.mem_append_left _ (List.mem_append_right _ mem)), apart_nil,
    apart_formatBody fun t mem => free t (List.mem_append_right _ mem), nofun⟩

theorem apart_formatResponse (free : ∀ t ∈ response.texts, Free id t) : Apart id (formatResponse response) := by
  have statusText : Free id response.statusText := free _ (by simp [ProxyErrorDiagnosticResponseDto.texts])
  have status : lineFeed ∉ response.status.text ++ utf16 " " := fun mem => by
    rcases List.mem_append.mp mem with inStatus | inSpace
    · exact absurd (Double.units_toText _ _ inStatus) (by decide)
    · exact absurd inSpace (by decide)
  have statusLine : Apart id (JsString.trimEnd (utf16 "HTTP " ++ response.status.text ++ utf16 " "
      ++ response.statusText)) := by
    have whole := apart_labelled "HTTP " (by decide) (by decide)
      (statusText.apart.unmarked.append_of_no_lineFeed status)
    rw [List.append_assoc (utf16 "HTTP "), List.append_assoc (utf16 "HTTP ")]
    exact whole.of_infix (List.cons_prefix_cons.mpr ⟨rfl, JsString.prefix_trimEnd _⟩).isInfix
  unfold formatResponse
  refine apart_inLines ?_
  simp only [List.forall_mem_cons]
  exact ⟨apart_label "## Upstream response" (by decide) (by decide), apart_nil,
    apart_label "[STATUS]" (by decide) (by decide), statusLine, apart_nil,
    apart_label "[HEADERS]" (by decide) (by decide),
    apart_formatHeaders fun t mem => free t (List.mem_append_left _ (List.mem_append_right _ mem)), apart_nil,
    apart_formatBody fun t mem => free t (List.mem_append_right _ mem), nofun⟩

theorem apart_sections (free : ∀ t ∈ record.texts, Free record.id t) :
    ∀ part ∈ sections record, Apart record.id part := by
  have inbound : ∀ t ∈ record.inboundRequest.texts, Free record.id t := fun t mem =>
    free t (by simp [ProxyErrorDiagnosticRecordDto.texts, mem])
  have upstream : ∀ t ∈ record.upstreamRequest.texts, Free record.id t := fun t mem =>
    free t (by simp [ProxyErrorDiagnosticRecordDto.texts, mem])
  have unmarked : ∀ t ∈ record.texts, Unmarked (endLine record.id.text) t := fun t mem =>
    (free t mem).apart.unmarked
  have ownId : Unmarked (endLine record.id.text) record.id.text :=
    unmarked_of_not_mem fun mem => absurd (record.id.units _ mem) (by decide)
  have kind : lineFeed ∉ record.failureKind.text := by
    cases record.failureKind <;> decide
  have path : lineFeed ∉ record.path.text := by
    cases record.path <;> decide
  have flag : lineFeed ∉ truth record.redacted := by
    cases record.redacted <;> decide
  have model : Unmarked (endLine record.id.text) (record.model.getD (utf16 "-")) := by
    cases given : record.model with
    | none => exact unmarked_of_not_mem (by decide)
    | some model => exact unmarked model (by simp [ProxyErrorDiagnosticRecordDto.texts, given])
  unfold sections
  simp only [List.forall_mem_append, List.forall_mem_cons]
  refine ⟨⟨⟨⟨⟨?_, ?_⟩, ?_⟩, ?_⟩, ?_⟩, apart_nil, nofun⟩
  · exact ⟨apart_nil, apart_label "## Summary" (by decide) (by decide),
      apart_labelled "Timestamp: " (by decide) (by decide)
        (unmarked _ (by simp [ProxyErrorDiagnosticRecordDto.texts])),
      apart_labelled "Diagnostic ID: " (by decide) (by decide) ownId,
      apart_labelled "Failure kind: " (by decide) (by decide) (unmarked_of_not_mem kind),
      apart_labelled "Identity: " (by decide) (by decide)
        (unmarked _ (by simp [ProxyErrorDiagnosticRecordDto.texts])), nofun⟩
  · intro part mem
    obtain ⟨enterpriseId, given, rfl⟩ := Option.map_eq_some_iff.mp (Option.mem_toList.mp mem)
    exact apart_labelled "Enterprise: " (by decide) (by decide)
      (unmarked _ (by simp [ProxyErrorDiagnosticRecordDto.texts, given]))
  · exact ⟨apart_labelled "Path: " (by decide) (by decide) (unmarked_of_not_mem path),
      apart_labelled "Model: " (by decide) (by decide) model,
      apart_labelled "Redacted: " (by decide) (by decide) (unmarked_of_not_mem flag), apart_nil,
      apart_formatRequest inbound (by decide), apart_nil, apart_formatRequest upstream (by decide), nofun⟩
  · cases given : record.upstreamResponse with
    | none => nofun
    | some response =>
        have texts : ∀ t ∈ response.texts, Free record.id t := fun t mem =>
          free t (by simp [ProxyErrorDiagnosticRecordDto.texts, given, mem])
        exact List.forall_mem_cons.mpr ⟨apart_nil, List.forall_mem_singleton.mpr (apart_formatResponse texts)⟩
  · cases given : record.error with
    | none => nofun
    | some error =>
        have texts : ∀ t ∈ error.texts, Free record.id t := fun t mem =>
          free t (by simp [ProxyErrorDiagnosticRecordDto.texts, given, mem])
        have cause : Unmarked (endLine record.id.text) (error.cause.getD (utf16 "-")) := by
          cases given : error.cause with
          | none => exact unmarked_of_not_mem (by decide)
          | some cause =>
              exact (texts cause (by simp [ProxyErrorDiagnosticThrownErrorDto.texts, given])).apart.unmarked
        have stack : Apart record.id (error.stack.getD (utf16 "-")) := by
          cases given : error.stack with
          | none => exact apart_label "-" (by decide) (by decide)
          | some stack => exact (texts stack (by simp [ProxyErrorDiagnosticThrownErrorDto.texts, given])).apart
        simp only [Option.elim_some, List.forall_mem_cons]
        exact ⟨apart_nil, apart_label "## Transport / stream error" (by decide) (by decide),
          apart_labelled "Name: " (by decide) (by decide)
            (texts _ (by simp [ProxyErrorDiagnosticThrownErrorDto.texts])).apart.unmarked,
          apart_labelled "Message: " (by decide) (by decide)
            (texts _ (by simp [ProxyErrorDiagnosticThrownErrorDto.texts])).apart.unmarked,
          apart_labelled "Cause: " (by decide) (by decide) cause, apart_nil,
          apart_label "[STACK]" (by decide) (by decide), stack, nofun⟩

/-- No line of a record before its last one begins with its end mark. -/
theorem unmarked_front (free : ∀ t ∈ record.texts, Free record.id t) :
    Unmarked (endLine record.id.text) (front record) := by
  have first : Unmarked (endLine record.id.text) (beginLine record.id.text) :=
    unmarked_of_not_mem (lineFeed_not_mem_beginLine record.id.units)
  have summary : Apart record.id (metadataPrefix ++ JsonValue.stringify (.obj (toDiagnosticSummary record))) :=
    apart_labelled "Metadata: " (by decide) (by decide) (unmarked_of_not_mem (JsonValue.not_mem_stringify _))
  have rest := summary.line (apart_inLines (apart_sections free))
  exact first.append_lineFeed rest (lineFeed_not_mem_endLine record.id.units)

end Fields

end GhcpConsole.Diagnostics
