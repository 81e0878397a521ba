import GhcpConsole.Diagnostics.RoundTrip
import GhcpConsole.Lib.JsonWellFormed
import GhcpConsole.Lib.RotatedFiles
import GhcpConsole.Lib.Utf8

/-!
# The files that diagnostics are kept in

`errorDiagnosticsStore.ts`: records are appended to `diagnostics.log`, which becomes `diagnostics.1.log`
when it would grow too large, and so on up to the last file, which is given up. An append makes several
calls, and any of them may be the last one that is made: the process ends there, or the call fails. A write
may also leave the first bytes of its text behind.

What a file has in it is seen as pieces: records that were written whole, and other bytes. A whole record
always begins on a line of its own, so that it is listed with its summary (`sublist_parseDiagnosticLog`),
whatever stands around it.
-/

namespace GhcpConsole.Diagnostics

open Rotated

/-- The options of a store that has its directory for itself. -/
structure ErrorDiagnosticsStoreOptions where
  enabled : Bool
  maxFileBytes : Nat
  maxFiles : Nat
  maxFiles_pos : 0 < maxFiles

/-- The files of the directory by their numbers; file 0 is `diagnostics.log`. -/
abbrev LogFiles := Files UInt8

inductive StoreError where
  | httpApiError (status : Nat) (code message : String)
  | errorDiagnosticsDisabled (message : String)
  deriving DecidableEq, Repr

def snapshotDisabled : StoreError :=
  .httpApiError 503 "error_diagnostics_disabled" "Proxy error diagnostics collection is disabled."

def disabledError : StoreError := .errorDiagnosticsDisabled "Proxy error diagnostics collection is disabled."

/-- The bytes of a record. -/
def blockBytes (record : ProxyErrorDiagnosticRecordDto) : List UInt8 :=
  Utf8.encode (formatDiagnosticRecord record)

namespace ErrorDiagnosticsStore

variable (options : ErrorDiagnosticsStoreOptions) (files : LogFiles)

/-- The bytes of `diagnostics.log`; none where there is no such file. -/
def active : List UInt8 := (files 0).getD []

def endsWithNewline (bytes : List UInt8) : Bool := bytes.getLast? = some 0x0A

/-- What is put in front of a record where the last write was cut off. -/
def lineEnd : List UInt8 :=
  if 0 < (active files).length ∧ endsWithNewline (active files) = false then [0x0A] else []

/-- Whether the files are rotated: the record does not fit. -/
def rotates (record : ProxyErrorDiagnosticRecordDto) : Prop :=
  0 < (active files).length
    ∧ options.maxFileBytes < (active files).length + (lineEnd files).length + (blockBytes record).length

instance rotates.decidable (record : ProxyErrorDiagnosticRecordDto) :
    Decidable (rotates options files record) := by
  unfold rotates
  infer_instance

/-- The calls of `append`. -/
def appendCalls (record : ProxyErrorDiagnosticRecordDto) : List (Call UInt8) :=
  if options.enabled = false then []
  else if rotates options files record then rotate options.maxFiles ++ [.append (blockBytes record)]
  else [.append (lineEnd files ++ blockBytes record)]

/-- The records in the order in which they are visited. -/
def visitNewestFirst : List Detail :=
  (List.range options.maxFiles).flatMap fun fileIndex =>
    (files fileIndex).elim [] fun bytes => (parseDiagnosticLog (Utf8.decode bytes)).reverse

def withoutContent (detail : Detail) : Detail := detail.erase (utf16 "content")

def snapshot : Except StoreError (List Detail) :=
  if options.enabled = false then .error snapshotDisabled
  else .ok ((visitNewestFirst options files).map withoutContent)

def hasId (id : JsString) (detail : Detail) : Bool :=
  match detail.get (utf16 "id") with
  | some (.str other) => other = id
  | _ => false

def get (id : JsString) : Except StoreError (Option Detail) :=
  if options.enabled = false then .error disabledError
  else .ok ((visitNewestFirst options files).find? (hasId id))

/-- What is left: the directory gets another name, and the files in it are removed later. -/
def clear : Except StoreError LogFiles :=
  if options.enabled = false then .error disabledError else .ok fun _ => none

end ErrorDiagnosticsStore

/-! ## Pieces -/

inductive Piece where
  | whole (record : ProxyErrorDiagnosticRecordDto)
  | part (bytes : List UInt8)

namespace Piece

def bytes : Piece → List UInt8
  | whole record => blockBytes record
  | part bytes => bytes

def record? : Piece → Option ProxyErrorDiagnosticRecordDto
  | whole record => some record
  | part _ => none

end Piece

/-- The bytes end a line. -/
def LineStart (bytes : List UInt8) : Prop := ∀ b ∈ bytes.getLast?, b = 0x0A

/-- Whole records begin on lines of their own; `before` is what was written since the last one. -/
def Aligned : List UInt8 → List Piece → Prop
  | _, [] => True
  | before, .whole _ :: pieces => LineStart before ∧ Aligned [] pieces
  | before, .part bytes :: pieces => Aligned (before ++ bytes) pieces

section Reading

variable {record : ProxyErrorDiagnosticRecordDto} {pieces : List Piece} {before u v : List UInt8}

theorem LineStart.of_append (h : LineStart (u ++ v)) : LineStart v := by
  cases v with
  | nil => exact fun _ mem => (Option.not_mem_none _ mem).elim
  | cons b v =>
      rw [LineStart, List.getLast?_append_of_ne_nil _ (List.cons_ne_nil b v)] at h
      exact h

theorem Aligned.concat_part (h : Aligned before pieces) (bytes : List UInt8) :
    Aligned before (pieces ++ [.part bytes]) := by
  induction pieces generalizing before with
  | nil => trivial
  | cons piece pieces ih =>
      cases piece with
      | whole record => exact ⟨h.1, ih h.2⟩
      | part other => exact ih (show Aligned (before ++ other) pieces from h)

theorem Aligned.concat_whole (h : Aligned before pieces)
    (start : LineStart (before ++ pieces.flatMap Piece.bytes)) (record : ProxyErrorDiagnosticRecordDto) :
    Aligned before (pieces ++ [.whole record]) := by
  induction pieces generalizing before with
  | nil =>
      rw [List.flatMap_nil, List.append_nil] at start
      exact ⟨start, trivial⟩
  | cons piece pieces ih =>
      rw [List.flatMap_cons, ← List.append_assoc] at start
      cases piece with
      | whole other => exact ⟨h.1, ih h.2 start.of_append⟩
      | part other => exact ih (show Aligned (before ++ other) pieces from h) start

/-- What was read before begins no record that comes later. -/
theorem lineTexts_decode_lineStart (h : LineStart u) (bytes : List UInt8) :
    lineTexts true (Utf8.decode bytes) <:+ lineTexts true (Utf8.decode (u ++ bytes)) := by
  rcases List.eq_nil_or_concat u with rfl | ⟨u, b, rfl⟩
  · exact List.suffix_rfl
  · rw [List.concat_eq_append] at h ⊢
    have feed : b = 0x0A := h b (by simp)
    obtain ⟨before, text⟩ := Utf8.decode_lineFeed u bytes
    rw [feed, List.append_assoc, List.singleton_append, text]
    have split : before ++ codeUnit '\n' :: Utf8.decode bytes = before ++ lineFeed :: Utf8.decode bytes := rfl
    rw [split, lineTexts_append_line]
    exact List.suffix_append _ _

/-- What a record is read as. A lone half of a surrogate pair in its sections is read as another character. -/
def readBack (record : ProxyErrorDiagnosticRecordDto) : JsString :=
  JsString.ofChars (JsString.scalars (formatDiagnosticRecord record))

theorem wellFormed_idUnits {id : JsString} (units : ∀ u ∈ id, isIdUnit u = true) : JsString.WellFormed id := by
  refine JsonValue.wellFormed_of_units fun u mem => ?_
  have unit := units u mem
  simp only [isIdUnit, Bool.or_eq_true, Bool.and_eq_true, decide_eq_true_eq] at unit
  have small : u.toNat < 0x80 := by
    rcases unit with (⟨_, digit⟩ | ⟨_, letter⟩) | rfl
    · exact Nat.lt_of_le_of_lt (UInt16.le_iff_toNat_le.mp digit) (by decide)
    · exact Nat.lt_of_le_of_lt (UInt16.le_iff_toNat_le.mp letter) (by decide)
    · decide
  rw [Bool.eq_false_iff, Bool.eq_false_iff, Ne, Ne, JsString.isHighSurrogate_iff, JsString.isLowSurrogate_iff]
  omega

theorem ofChars_scalars_lineFeed {text : JsString} (h : JsString.WellFormed text) (rest : JsString) :
    JsString.ofChars (JsString.scalars (text ++ lineFeed :: rest))
      = text ++ lineFeed :: JsString.ofChars (JsString.scalars rest) := by
  have feed : JsString.WellFormed (text ++ [lineFeed]) :=
    h.append (JsString.wellFormed_singleton (by decide) (by decide))
  rw [List.append_cons, feed.ofChars_scalars_append, ← List.append_cons]

/-- The line with the summary is written as it is, and so are the lines with the marks. -/
theorem readBack_eq (record : ProxyErrorDiagnosticRecordDto) : ∃ sections,
    readBack record = beginLine record.id.text ++ lineFeed
      :: (metadataPrefix ++ JsonValue.stringify (.obj (toDiagnosticSummary record))
        ++ lineFeed :: (sections ++ endMarker record.id.text ++ [lineFeed])) := by
  have feed : endMarker record.id.text ++ [lineFeed] = lineFeed :: (endLine record.id.text ++ [lineFeed]) := rfl
  have idText := wellFormed_idUnits record.id.units
  have begins : JsString.WellFormed (beginLine record.id.text) :=
    ((JsString.wellFormed_utf16 _).append idText).append (JsString.wellFormed_utf16 _)
  have ends : JsString.WellFormed (endLine record.id.text) :=
    ((JsString.wellFormed_utf16 _).append idText).append (JsString.wellFormed_utf16 _)
  have metadata : JsString.WellFormed (metadataPrefix ++ JsonValue.stringify (.obj (toDiagnosticSummary record))) :=
    (JsString.wellFormed_utf16 _).append (JsonValue.wellFormed_stringify _)
  refine ⟨JsString.ofChars (JsString.scalars (JsString.inLines (sections record))), ?_⟩
  have last : JsString.ofChars (JsString.scalars (JsString.inLines (sections record)
      ++ lineFeed :: (endLine record.id.text ++ [lineFeed])))
        = JsString.ofChars (JsString.scalars (JsString.inLines (sections record)))
          ++ endMarker record.id.text ++ [lineFeed] := by
    have mark : JsString.ofChars (Char.ofNat lineFeed.toNat :: JsString.scalars (endLine record.id.text ++ [lineFeed]))
        = lineFeed :: JsString.ofChars (JsString.scalars (endLine record.id.text ++ [lineFeed])) := rfl
    have tail : JsString.ofChars (JsString.scalars []) = [] := rfl
    rw [JsString.scalars_append (by decide) (by decide), Utf8.ofChars_append, mark,
      ofChars_scalars_lineFeed ends, tail, List.append_assoc, feed]
  have whole : formatDiagnosticRecord record = beginLine record.id.text ++ lineFeed
      :: (metadataPrefix ++ JsonValue.stringify (.obj (toDiagnosticSummary record))
        ++ lineFeed :: (JsString.inLines (sections record)
          ++ lineFeed :: (endLine record.id.text ++ [lineFeed]))) := by
    rw [formatDiagnosticRecord_eq, front, inner, endMarker, endLine]
    simp only [List.append_assoc, List.cons_append]
  rw [readBack, whole, ofChars_scalars_lineFeed begins, ofChars_scalars_lineFeed metadata, last]

theorem exists_readBack (record : ProxyErrorDiagnosticRecordDto) : ∃ text, readBack record = text ++ [lineFeed] := by
  obtain ⟨sections, read⟩ := readBack_eq record
  refine ⟨beginLine record.id.text ++ lineFeed
    :: (metadataPrefix ++ JsonValue.stringify (.obj (toDiagnosticSummary record))
      ++ lineFeed :: (sections ++ endMarker record.id.text)), ?_⟩
  rw [read]
  simp only [List.append_assoc, List.cons_append]

/-- A record is read with its summary, whatever comes after it. -/
theorem recordAt_readBack (record : ProxyErrorDiagnosticRecordDto) (rest : JsString) :
    ∃ content, recordAt (readBack record ++ rest)
      = some (OrderedMap.set (toDiagnosticSummary record) (utf16 "content") (.str content)) := by
  obtain ⟨sections, read⟩ := readBack_eq record
  have split : ∀ first metadata : JsString,
      first ++ lineFeed :: (metadata ++ lineFeed :: (sections ++ endMarker record.id.text ++ [lineFeed])) ++ rest
        = first ++ lineFeed :: (metadata
          ++ lineFeed :: (sections ++ endMarker record.id.text ++ lineFeed :: rest)) := by
    intro first metadata
    simp only [List.append_assoc, List.cons_append, List.nil_append]
  have ends : ∀ metadata : JsString, ∃ n, indexOf (endMarker record.id.text)
      (metadata ++ lineFeed :: (sections ++ endMarker record.id.text ++ lineFeed :: rest)) = some n := by
    intro metadata
    have whole : metadata ++ lineFeed :: (sections ++ endMarker record.id.text ++ lineFeed :: rest)
        = metadata ++ lineFeed :: sections ++ endMarker record.id.text ++ lineFeed :: rest := by
      simp only [List.append_assoc, List.cons_append]
    obtain ⟨n, _, found⟩ := indexOf_le whole
    exact ⟨n, found⟩
  obtain ⟨n, found⟩ := ends (metadataPrefix ++ JsonValue.stringify (.obj (toDiagnosticSummary record)))
  rw [read, split]
  exact ⟨_, recordAt_of_lines record.id.ne_nil record.id.units (by decide) (JsonValue.not_mem_stringify _)
    parse_summary get_id_toDiagnosticSummary found⟩

/-- Leaving the text out of what was read gives the summary. -/
theorem withoutContent_set (record : ProxyErrorDiagnosticRecordDto) (content : JsonValue) :
    ErrorDiagnosticsStore.withoutContent (OrderedMap.set (toDiagnosticSummary record) (utf16 "content") content)
      = toDiagnosticSummary record := by
  have absent : utf16 "content" ∉ (toDiagnosticSummary record).map (·.1) := fun mem =>
    absurd (keys_toDiagnosticSummary.subset mem) (by decide)
  have others : (toDiagnosticSummary record).filter (·.1 ≠ utf16 "content") = toDiagnosticSummary record :=
    List.filter_eq_self.mpr fun member mem => decide_eq_true fun same =>
      absent (same ▸ List.mem_map_of_mem mem)
  rw [OrderedMap.set_of_not_mem absent, ErrorDiagnosticsStore.withoutContent, OrderedMap.erase,
    List.filter_append, others]
  simp

/-- A log that begins with a record lists it, and then what comes after it. -/
theorem sublist_of_readBack (record : ProxyErrorDiagnosticRecordDto) (rest : JsString) :
    (toDiagnosticSummary record :: (parseDiagnosticLog rest).map ErrorDiagnosticsStore.withoutContent).Sublist
      ((parseDiagnosticLog (readBack record ++ rest)).map ErrorDiagnosticsStore.withoutContent) := by
  obtain ⟨text, line⟩ := exists_readBack record
  obtain ⟨content, read⟩ := recordAt_readBack record rest
  have some : readBack record ≠ [] := by simp [line]
  have whole : parseDiagnosticLog (readBack record ++ rest)
      = OrderedMap.set (toDiagnosticSummary record) (utf16 "content") (.str content)
        :: (((lineTexts false (readBack record)).map (· ++ rest)).filterMap recordAt ++ parseDiagnosticLog rest) := by
    rw [parseDiagnosticLog_eq, line, List.append_assoc, List.singleton_append, lineTexts_append_line, ← line,
      lineTexts_true some, List.map_cons, List.cons_append, List.filterMap_cons, read, List.filterMap_append,
      ← parseDiagnosticLog_eq]
  rw [whole, List.map_cons, withoutContent_set, List.map_append]
  exact (List.sublist_append_right _ _).cons_cons _

/-- Every whole record is listed, in the order of the file. -/
theorem sublist_parseDiagnosticLog (h : Aligned before pieces) :
    ((pieces.filterMap Piece.record?).map toDiagnosticSummary).Sublist
      ((parseDiagnosticLog (Utf8.decode (before ++ pieces.flatMap Piece.bytes))).map
        ErrorDiagnosticsStore.withoutContent) := by
  induction pieces generalizing before with
  | nil => exact List.nil_sublist _
  | cons piece pieces ih =>
      cases piece with
      | part bytes =>
          rw [List.flatMap_cons, ← List.append_assoc]
          exact ih h
      | whole record =>
          obtain ⟨start, rest⟩ := h
          have decoded : Utf8.decode ((Piece.whole record :: pieces).flatMap Piece.bytes)
              = readBack record ++ Utf8.decode (pieces.flatMap Piece.bytes) := Utf8.decode_encode_append _ _
          have later := lineTexts_decode_lineStart start ((Piece.whole record :: pieces).flatMap Piece.bytes)
          have listed := (later.sublist.filterMap recordAt).map ErrorDiagnosticsStore.withoutContent
          rw [decoded, ← parseDiagnosticLog_eq, ← parseDiagnosticLog_eq] at listed
          exact (((ih rest).cons_cons _).trans (sublist_of_readBack record _)).trans listed

end Reading

end GhcpConsole.Diagnostics
