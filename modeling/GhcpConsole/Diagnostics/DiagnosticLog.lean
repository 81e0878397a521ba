import GhcpConsole.Diagnostics.OwnId

/-!
# The log of diagnostic records

What is read of a log are the records that were written whole, unless a text in one of them, or in the
one that was cut off, is itself taken for a record: the parser goes on looking within a record that it has
read.
-/

namespace GhcpConsole.Diagnostics

/-- A record whose writing was cut off before its end mark was complete. -/
structure CutRecord where
  record : ProxyErrorDiagnosticRecordDto
  kept : Nat
  short : kept + 1 < (formatDiagnosticRecord record).length

def CutRecord.text (cut : CutRecord) : JsString := (formatDiagnosticRecord cut.record).take cut.kept

section Cut

variable {cut : CutRecord}

theorem CutRecord.unmarked (own : Unmarked (endLine cut.record.id.text) (front cut.record)) :
    Unmarked (endLine cut.record.id.text) cut.text := by
  have some : endLine cut.record.id.text ≠ [] :=
    List.append_ne_nil_of_right_ne_nil _ (by decide)
  have whole : formatDiagnosticRecord cut.record
      = front cut.record ++ lineFeed :: (endLine cut.record.id.text).dropLast
        ++ [(endLine cut.record.id.text).getLast some, lineFeed] := by
    rw [formatDiagnosticRecord_eq, endMarker]
    have last := List.dropLast_append_getLast some
    calc front cut.record ++ lineFeed :: endLine cut.record.id.text ++ [lineFeed]
        = front cut.record ++ lineFeed :: ((endLine cut.record.id.text).dropLast
          ++ [(endLine cut.record.id.text).getLast some]) ++ [lineFeed] := by rw [last]
      _ = _ := by simp
  have shorter : ¬ endLine cut.record.id.text <:+: (endLine cut.record.id.text).dropLast := by
    intro found
    have length := found.length_le
    have pos := List.length_pos_of_ne_nil some
    rw [List.length_dropLast] at length
    omega
  have before : Unmarked (endLine cut.record.id.text)
      (front cut.record ++ lineFeed :: (endLine cut.record.id.text).dropLast) :=
    own.append_lineFeed (unmarked_of_absent shorter) (lineFeed_not_mem_endLine cut.record.id.units)
  have part : cut.text <+: front cut.record ++ lineFeed :: (endLine cut.record.id.text).dropLast := by
    have short := cut.short
    refine List.prefix_of_prefix_length_le (List.take_prefix _ _) ⟨_, whole.symm⟩ ?_
    rw [whole, List.length_append] at short
    rw [CutRecord.text, List.length_take]
    simp only [List.length_cons, List.length_nil] at short
    omega
  exact before.of_infix part.isInfix

/-- Two first lines are the same where one text is the front of the other. -/
theorem id_eq_of_prefix {id id' rest rest' : JsString} (units : ∀ u ∈ id, isIdUnit u = true)
    (units' : ∀ u ∈ id', isIdUnit u = true) (h : beginLine id' ++ rest' <+: beginLine id ++ rest) :
    id' = id := by
  have space : ∀ {id : JsString}, (∀ u ∈ id, isIdUnit u = true) → codeUnit ' ' ∉ id := fun units mem =>
    absurd (units _ mem) (by decide)
  obtain ⟨tail, same⟩ := h
  simp only [beginLine, List.append_assoc, List.append_cancel_left_eq] at same
  have line : markEnd = codeUnit ' ' :: utf16 "=====" := by decide
  rw [line, List.cons_append, List.cons_append] at same
  have found := indexOf_singleton (v := utf16 "=====" ++ rest) (space units)
  rw [← same, indexOf_singleton (space units')] at found
  exact (List.append_inj same (Option.some.inj found)).1

/-- The cut record is not read. -/
theorem CutRecord.not_beginsRecord (own : Unmarked (endLine cut.record.id.text) (front cut.record)) :
    ¬ BeginsRecord cut.text := by
  rintro ⟨id, metadata, rest, t, summary, text, _, units, _, _, _, _, found⟩
  have part : cut.text <+: formatDiagnosticRecord cut.record := List.take_prefix _ _
  rw [text, formatDiagnosticRecord_eq, front, List.append_assoc (beginLine _ ++ _),
    List.append_assoc (beginLine _)] at part
  obtain rfl := id_eq_of_prefix cut.record.id.units units part
  have unmarked := cut.unmarked own
  rw [text] at unmarked
  have within : lineFeed :: rest <:+: beginLine cut.record.id.text
      ++ t :: (metadataPrefix ++ metadata ++ lineFeed :: rest) :=
    ⟨beginLine cut.record.id.text ++ t :: (metadataPrefix ++ metadata), [], by simp⟩
  exact unmarked (found.trans within)

end Cut

/-- Within the log, no line but the first one of each record begins a record. -/
def NothingPasted (records : List ProxyErrorDiagnosticRecordDto) (cut : JsString) : Prop :=
  (∀ before record after, records = before ++ record :: after →
      ¬ HoldsRecord (formatDiagnosticRecord record) (written after cut))
    ∧ ¬ HoldsRecord cut []

theorem undisturbed_iff {records : List ProxyErrorDiagnosticRecordDto} {cut : JsString}
    (own : ∀ record ∈ records, Unmarked (endLine record.id.text) (front record)) (read : ¬ BeginsRecord cut) :
    Undisturbed records cut ↔ NothingPasted records cut := by
  induction records with
  | nil =>
      refine ⟨fun h => ⟨fun before record after split => ?_, h.2⟩, fun h => ⟨read, h.2⟩⟩
      exact absurd split (by simp)
  | cons record records ih =>
      have later := ih fun other mem => own other (List.mem_cons_of_mem _ mem)
      rw [Undisturbed, later]
      constructor
      · rintro ⟨_, first, rest, last⟩
        refine ⟨fun before other after split => ?_, last⟩
        cases before with
        | nil =>
            obtain ⟨rfl, rfl⟩ := List.cons.inj split
            exact first
        | cons _ before => exact rest before other after (List.cons.inj split).2
      · rintro ⟨all, last⟩
        exact ⟨own record List.mem_cons_self, all [] record records rfl,
          fun before other after split => all (record :: before) other after (by rw [split]; rfl), last⟩

theorem parseDiagnosticLog_round_trip (records : List ProxyErrorDiagnosticRecordDto) (cut : Option CutRecord) :
    (parseDiagnosticLog (written records (cut.elim [] CutRecord.text)) = records.map detail
      ↔ Undisturbed records (cut.elim [] CutRecord.text))
    ∧ ((∀ record ∈ records, ∀ t ∈ record.texts, Free record.id t) →
      (∀ cutRecord ∈ cut, ∀ t ∈ cutRecord.record.texts, Free cutRecord.record.id t) →
      (parseDiagnosticLog (written records (cut.elim [] CutRecord.text)) = records.map detail
        ↔ NothingPasted records (cut.elim [] CutRecord.text))) := by
  refine ⟨parseDiagnosticLog_written, fun free freeCut => ?_⟩
  rw [parseDiagnosticLog_written]
  refine undisturbed_iff (fun record mem => unmarked_front (free record mem)) ?_
  cases cut with
  | none =>
      rintro ⟨id, _, _, _, _, text, _⟩
      exact absurd text (by simp)
  | some cutRecord => exact cutRecord.not_beginsRecord (unmarked_front (freeCut cutRecord rfl))

/-! ## A record in a body -/

section Pasted

theorem infix_inLines {part : JsString} {parts : List JsString} (h : part ∈ parts) :
    part <:+: JsString.inLines parts := by
  induction parts with
  | nil => cases h
  | cons first parts ih =>
      by_cases last : parts = []
      · subst last
        rw [List.mem_singleton.mp h, JsString.inLines, List.intercalate_singleton]
      · rw [JsString.inLines_cons first last]
        rcases List.mem_cons.mp h with rfl | later
        · exact (List.prefix_append _ _).isInfix
        · exact (ih later).trans ((List.suffix_cons _ _).trans (List.suffix_append _ _)).isInfix

/-- A record on a line of its own within a text is taken for one. -/
theorem holdsRecord_of_line {record : ProxyErrorDiagnosticRecordDto} {text rest : JsString}
    (h : lineFeed :: formatDiagnosticRecord record <:+: text) : HoldsRecord text rest := by
  obtain ⟨u, v, rfl⟩ := h
  have some : formatDiagnosticRecord record ++ v ≠ [] := by simp [formatDiagnosticRecord_eq]
  obtain ⟨read, reads, _⟩ := recordAt_written record (v ++ rest)
  refine ⟨formatDiagnosticRecord record ++ v, ?_, ?_⟩
  · rw [List.append_assoc, List.cons_append, lineTexts_append_line, lineTexts_true some]
    exact List.mem_append_right _ List.mem_cons_self
  · rw [List.append_assoc]
    exact beginsRecord_of_recordAt reads

/-- A text body that is no JSON stands in the record as it is. -/
theorem infix_formatBody {body : ProxyErrorDiagnosticBodyDto} {data : JsString} (text : body.encoding = .utf8)
    (given : body.data = some data) (filled : data ≠ []) (other : JsonValue.parse data = none) :
    lineFeed :: data <:+: formatBody (some body) := by
  have bracket : utf16 "]\n" = utf16 "]" ++ [lineFeed] := by decide
  have kept : body.data.filter (· ≠ []) = some data := by rw [given]; simp [filled]
  have same : prettyJson data = data := by rw [prettyJson, other]; rfl
  unfold formatBody
  dsimp only
  rw [if_neg (by rw [text]; decide), kept]
  dsimp only
  rw [if_neg (by rw [text]; decide), same, bracket]
  have last : ∀ u v w : JsString, lineFeed :: data <:+: u ++ v ++ (w ++ [lineFeed]) ++ data := fun u v w =>
    ⟨u ++ v ++ w, [], by simp⟩
  exact last _ _ _

theorem parse_formatDiagnosticRecord (record : ProxyErrorDiagnosticRecordDto) :
    JsonValue.parse (formatDiagnosticRecord record) = none := by
  have mark : beginPrefix = codeUnit '=' :: beginPrefix.drop 1 := by decide
  rw [formatDiagnosticRecord_eq, front, beginLine, mark]
  rfl

/-- What the body of the inbound request shows stands in the record. -/
theorem infix_formatDiagnosticRecord (record : ProxyErrorDiagnosticRecordDto) :
    formatBody record.inboundRequest.body <:+: formatDiagnosticRecord record := by
  have inRequest : formatBody record.inboundRequest.body
      <:+: formatRequest "Inbound request" record.inboundRequest record.id.text true :=
    infix_inLines (by simp only [List.mem_cons, true_or, or_true])
  have inSections : formatRequest "Inbound request" record.inboundRequest record.id.text true
      <:+: JsString.inLines (sections record) :=
    infix_inLines (by simp only [sections, List.mem_append, List.mem_cons, true_or, or_true])
  have inFront : JsString.inLines (sections record) <:+: front record :=
    ⟨beginLine record.id.text ++ lineFeed :: (metadataPrefix
      ++ JsonValue.stringify (.obj (toDiagnosticSummary record))) ++ [lineFeed], [], by simp [front, inner]⟩
  have inRecord : front record <:+: formatDiagnosticRecord record :=
    ⟨[], endMarker record.id.text ++ [lineFeed], by
      rw [formatDiagnosticRecord_eq, List.append_assoc (front record), List.nil_append]⟩
  exact ((inRequest.trans inSections).trans inFront).trans inRecord

end Pasted

namespace Sample

def request (body : Option JsString) : ProxyErrorDiagnosticRequestDto where
  method := utf16 "POST"
  url := utf16 "/v1/messages"
  headers := []
  body := body.map fun data =>
    { encoding := .utf8, data := some data, byteLength := 9, capturedByteLength := 9
      truncated := false, complete := true, unavailableReason := none }

def record (id : DiagnosticId) (body : Option JsString) : ProxyErrorDiagnosticRecordDto where
  id := id
  timestamp := utf16 "2026-01-01T00:00:00.000Z"
  failureKind := .http
  identity := utf16 "aaa.a00"
  enterpriseId := none
  path := .messages
  model := none
  redacted := true
  inboundRequest := request body
  upstreamRequest := request none
  upstreamResponse := none
  error := none

def earlier : ProxyErrorDiagnosticRecordDto :=
  record ⟨utf16 "11111111-1111-4111-8111-111111111111", by decide, by decide⟩ none

/-- The client sends the text of an earlier record. -/
def pasted : ProxyErrorDiagnosticRecordDto :=
  record ⟨utf16 "22222222-2222-4222-8222-222222222222", by decide, by decide⟩
    (some (formatDiagnosticRecord earlier))

end Sample

/-- The earlier record is read again, from the command and from the body. -/
theorem parseDiagnosticLog_pasted : (∀ t ∈ Sample.pasted.texts, Free Sample.pasted.id t)
    ∧ parseDiagnosticLog (written [Sample.pasted] []) ≠ [Sample.pasted].map detail := by
  have free : ∀ t ∈ Sample.pasted.texts, ¬ Sample.pasted.id.text <:+: t := by decide +kernel
  have whole : formatDiagnosticRecord Sample.earlier ≠ [] := by simp [formatDiagnosticRecord_eq]
  have shown : lineFeed :: formatDiagnosticRecord Sample.earlier
      <:+: formatBody Sample.pasted.inboundRequest.body :=
    infix_formatBody rfl rfl whole (parse_formatDiagnosticRecord Sample.earlier)
  refine ⟨free, fun same => ?_⟩
  obtain ⟨_, nothing, _⟩ := parseDiagnosticLog_written.mp same
  exact nothing (holdsRecord_of_line (shown.trans (infix_formatDiagnosticRecord Sample.pasted)))

end GhcpConsole.Diagnostics
