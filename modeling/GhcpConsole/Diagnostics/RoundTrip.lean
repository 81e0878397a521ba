import GhcpConsole.Diagnostics.Parse

/-!
# Records that are read back

A log is what `append` has written: records one after another, and at its end perhaps one whose writing
was cut off. Every record that was written whole is read. What else is read, and where a record is read
short, is said in `parseDiagnosticLog_written`.
-/

namespace GhcpConsole.Diagnostics

variable {record : ProxyErrorDiagnosticRecordDto}

section Summary

def summaryKeys : List JsString :=
  ["id", "timestamp", "failureKind", "identity", "enterpriseId", "path", "model", "status", "redacted",
    "inboundRequestBodyBytes", "upstreamRequestBodyBytes", "upstreamResponseBodyBytes"].map utf16

theorem keys_toDiagnosticSummary : List.Sublist ((toDiagnosticSummary record).map (·.1)) summaryKeys := by
  have optional : ∀ {α : Type} (value : Option α) (key : JsString) (f : α → JsonValue),
      List.Sublist ((value.map fun a => (key, f a)).toList.map (·.1)) [key] := by
    intro α value key f
    cases value
    · exact List.nil_sublist _
    · exact List.Sublist.refl _
  rw [toDiagnosticSummary]
  simp only [List.map_append]
  exact ((((((List.Sublist.refl _).append (optional _ _ _)).append (List.Sublist.refl _)).append
    (optional _ _ _)).append (optional _ _ _)).append (List.Sublist.refl _) :)

theorem ordered_toDiagnosticSummary : JsonValue.Ordered (toDiagnosticSummary record) := by
  have nodup : summaryKeys.Nodup := by decide
  have names : ∀ key ∈ summaryKeys, JsonValue.arrayIndex? key = none := by decide
  exact ⟨nodup.sublist keys_toDiagnosticSummary, fun member mem =>
    names _ (keys_toDiagnosticSummary.subset (List.mem_map_of_mem mem))⟩

theorem reads_toDiagnosticSummary : ∀ member ∈ toDiagnosticSummary record, member.2.Reads := by
  have count : ∀ n : Count, n.number.Reads := fun n => JsonValue.reads_whole n.isLt
  have str : ∀ text : JsString, (JsonValue.str text).Reads := fun _ => JsonValue.reads_str
  have optional : ∀ {α : Type} (value : Option α) (key : JsString) (f : α → JsonValue),
      (∀ a, (f a).Reads) → ∀ member ∈ (value.map fun a => (key, f a)).toList, member.2.Reads := by
    intro α value key f reads member mem
    cases value
    · cases mem
    · rw [List.mem_singleton.mp mem]
      exact reads _
  unfold toDiagnosticSummary
  simp only [List.forall_mem_append, List.forall_mem_cons]
  exact ⟨⟨⟨⟨⟨⟨str _, str _, str _, str _, nofun⟩, optional _ _ _ fun _ => str _⟩, str _, nofun⟩,
    optional _ _ _ fun _ => str _⟩, optional _ _ _ fun _ => count _⟩,
    JsonValue.reads_bool, count _, count _, count _, nofun⟩

theorem parse_summary : JsonValue.parse (JsonValue.stringify (.obj (toDiagnosticSummary record)))
    = some (.obj (toDiagnosticSummary record)) :=
  JsonValue.parse_stringify (JsonValue.reads_obj reads_toDiagnosticSummary ordered_toDiagnosticSummary)

theorem get_id_toDiagnosticSummary :
    OrderedMap.get (toDiagnosticSummary record) (utf16 "id") = some (.str record.id.text) := by
  rw [toDiagnosticSummary]
  rfl

end Summary

section Format

/-- The mark at the end of a record, without the line feed in front of it. -/
def endLine (id : JsString) : JsString := endPrefix ++ id ++ markEnd

/-- What comes after the first line, up to the end mark. -/
def inner (record : ProxyErrorDiagnosticRecordDto) : JsString :=
  metadataPrefix ++ JsonValue.stringify (.obj (toDiagnosticSummary record))
    ++ lineFeed :: JsString.inLines (sections record)

/-- What comes before the end mark. -/
def front (record : ProxyErrorDiagnosticRecordDto) : JsString :=
  beginLine record.id.text ++ lineFeed :: inner record

theorem formatDiagnosticRecord_eq :
    formatDiagnosticRecord record = front record ++ endMarker record.id.text ++ [lineFeed] := by
  have some : sections record ≠ [] := by simp [sections]
  have last : JsString.inLines [endPrefix ++ record.id.text ++ markEnd, []]
      = endPrefix ++ record.id.text ++ markEnd ++ [lineFeed] :=
    JsString.inLines_cons _ (List.cons_ne_nil _ _)
  rw [formatDiagnosticRecord, List.append_assoc, List.cons_append, List.singleton_append,
    JsString.inLines_cons _ (List.cons_ne_nil _ _), JsString.inLines_cons _ (by simp [sections]),
    JsString.inLines_append some (List.cons_ne_nil _ _), last, front, inner, beginLine, endMarker]
  simp only [List.append_assoc, List.cons_append]

end Format

section Reading

/-- The summary of a record and its whole text. -/
def detail (record : ProxyErrorDiagnosticRecordDto) : Detail :=
  OrderedMap.set (toDiagnosticSummary record) (utf16 "content") (.str (formatDiagnosticRecord record))

variable {id rest : JsString} {c : CodeUnit} {n : Nat}

theorem not_mem_endLine (h : ∀ u ∈ id, isIdUnit u = true) (hc : isIdUnit c = false) (hbegin : c ∉ endPrefix)
    (hend : c ∉ markEnd) : c ∉ endLine id := by
  rw [endLine, List.mem_append, List.mem_append, not_or, not_or]
  refine ⟨⟨hbegin, fun mem => ?_⟩, hend⟩
  rw [h c mem] at hc
  cases hc

theorem lineFeed_not_mem_endLine (h : ∀ u ∈ id, isIdUnit u = true) : lineFeed ∉ endLine id :=
  not_mem_endLine h (by decide) (by decide) (by decide)

theorem lineFeed_not_mem_beginLine (h : ∀ u ∈ id, isIdUnit u = true) : lineFeed ∉ beginLine id := by
  rw [beginLine, List.mem_append, List.mem_append, not_or, not_or]
  refine ⟨⟨by decide, fun mem => ?_⟩, by decide⟩
  exact absurd (h lineFeed mem) (by decide)

/-- A record is read, whatever comes after it, with the text up to the first of its end marks. -/
theorem recordAt_format
    (found : indexOf (endMarker record.id.text) (inner record ++ endMarker record.id.text ++ lineFeed :: rest)
      = some n) :
    recordAt (formatDiagnosticRecord record ++ rest)
      = some (OrderedMap.set (toDiagnosticSummary record) (utf16 "content")
        (.str (blockOf record.id.text (formatDiagnosticRecord record ++ rest) n))) := by
  have whole : formatDiagnosticRecord record ++ rest = beginLine record.id.text ++ lineFeed
      :: (metadataPrefix ++ JsonValue.stringify (.obj (toDiagnosticSummary record))
        ++ lineFeed :: (JsString.inLines (sections record) ++ endMarker record.id.text ++ lineFeed :: rest)) := by
    rw [formatDiagnosticRecord_eq, front, inner]
    simp only [List.append_assoc, List.cons_append, List.nil_append]
  rw [whole]
  refine recordAt_of_lines record.id.ne_nil record.id.units (by decide) (JsonValue.not_mem_stringify _)
    parse_summary get_id_toDiagnosticSummary ?_
  rw [← found, inner]
  simp only [List.append_assoc, List.cons_append]

theorem length_front : (front record).length = (beginLine record.id.text).length + 1 + (inner record).length := by
  rw [front, List.length_append, List.length_cons]
  omega

/-- The first end mark is the last one: the block is the record. -/
theorem blockOf_format : blockOf record.id.text (formatDiagnosticRecord record ++ rest) (inner record).length
    = formatDiagnosticRecord record := by
  have split : formatDiagnosticRecord record ++ rest
      = (front record ++ endMarker record.id.text) ++ lineFeed :: rest := by
    rw [formatDiagnosticRecord_eq, List.append_assoc _ [lineFeed], List.singleton_append]
  have blockEnd : (beginLine record.id.text).length + 1 + (inner record).length
      + (endMarker record.id.text).length = (front record ++ endMarker record.id.text).length := by
    rw [List.length_append, length_front]
  rw [blockOf, split, blockEnd, List.getElem?_append_right (Nat.le_refl _), Nat.sub_self, List.getElem?_cons_zero, if_pos rfl,
    List.take_length_add_append, formatDiagnosticRecord_eq]
  rfl

/-- With an earlier one it is shorter. -/
theorem length_blockOf_lt (text : JsString) (h : n < (inner record).length) :
    (blockOf record.id.text text n).length < (formatDiagnosticRecord record).length := by
  rw [blockOf, formatDiagnosticRecord_eq, List.length_take, List.length_append, List.length_append, length_front, List.length_singleton]
  split <;> omega

/-- A record is read as it is exactly if no line before its end mark begins with that mark. -/
theorem recordAt_written (record : ProxyErrorDiagnosticRecordDto) (rest : JsString) : ∃ read, recordAt (formatDiagnosticRecord record ++ rest) = some read
    ∧ (read = detail record ↔ Unmarked (endLine record.id.text) (front record)) := by
  have noFeed := lineFeed_not_mem_endLine record.id.units
  by_cases own : Unmarked (endLine record.id.text) (front record)
  · have part : Unmarked (endLine record.id.text) (inner record) :=
      own.of_infix ⟨beginLine record.id.text ++ [lineFeed], [], by simp [front]⟩
    have found := indexOf_mark (v := lineFeed :: rest) part noFeed
    refine ⟨detail record, ?_, iff_of_true rfl own⟩
    rw [recordAt_format (n := (inner record).length), blockOf_format, detail]
    rw [← found, endMarker, endLine]
    simp only [List.append_assoc, List.cons_append]
  · have early : endMarker record.id.text <:+: inner record := by
      by_contra clean
      have first : Unmarked (endLine record.id.text) (lineFeed :: inner record) :=
        Unmarked.lineFeed_cons clean (by decide)
      exact own (first.append_of_no_lineFeed (lineFeed_not_mem_beginLine record.id.units))
    obtain ⟨u, v, split⟩ := early
    have whole : inner record ++ endMarker record.id.text ++ lineFeed :: rest
        = u ++ endMarker record.id.text ++ (v ++ endMarker record.id.text ++ lineFeed :: rest) := by
      rw [← split]
      simp only [List.append_assoc]
    obtain ⟨n, bound, found⟩ := indexOf_le whole
    have before : n < (inner record).length := by
      have length := congrArg List.length split
      rw [List.length_append, List.length_append, endMarker, List.length_cons] at length
      omega
    refine ⟨_, recordAt_format found, iff_of_false (fun same => ?_) own⟩
    have contents := congrArg (fun read => OrderedMap.get read (utf16 "content")) same
    simp only [detail, OrderedMap.get_set_self, Option.some.injEq, JsonValue.str.injEq] at contents
    have shorter := length_blockOf_lt (formatDiagnosticRecord record ++ rest) before
    rw [contents] at shorter
    exact Nat.lt_irrefl _ shorter

end Reading

section Log

variable {records : List ProxyErrorDiagnosticRecordDto} {cut rest text u v : JsString}

/-- What `append` has written: whole records, and a text that is no whole record. -/
def written (records : List ProxyErrorDiagnosticRecordDto) (cut : JsString) : JsString :=
  (records.map formatDiagnosticRecord).flatten ++ cut

/-- A line of a text after the first one begins a record; the text goes on with `rest`. -/
def HoldsRecord (text rest : JsString) : Prop :=
  ∃ later ∈ lineTexts false text, BeginsRecord (later ++ rest)

/-- Nothing in the log is taken for a record or for the end of one that it is not. -/
def Undisturbed : List ProxyErrorDiagnosticRecordDto → JsString → Prop
  | [], cut => ¬ BeginsRecord cut ∧ ¬ HoldsRecord cut []
  | record :: records, cut => Unmarked (endLine record.id.text) (front record)
      ∧ ¬ HoldsRecord (formatDiagnosticRecord record) (written records cut) ∧ Undisturbed records cut

theorem recordAt_eq_none : recordAt text = none ↔ ¬ BeginsRecord text := by
  refine ⟨fun absent begins => recordAt_ne_none_of_beginsRecord begins absent, fun absent => ?_⟩
  cases read : recordAt text with
  | none => rfl
  | some detail => exact absurd (beginsRecord_of_recordAt read) absent

theorem lineTexts_true (some : text ≠ []) : lineTexts true text = text :: lineTexts false text := by
  cases text with
  | nil => exact absurd rfl some
  | cons c text => rfl

/-- The lines of two texts, the first of which ends a line. -/
theorem lineTexts_append_line (start : Bool) : lineTexts start (u ++ lineFeed :: v)
    = (lineTexts start (u ++ [lineFeed])).map (· ++ v) ++ lineTexts true v := by
  induction u generalizing start with
  | nil => cases start <;> rfl
  | cons c u ih =>
      rw [List.cons_append, List.cons_append, lineTexts, lineTexts, ih]
      cases start with
      | false => rfl
      | true =>
          have line : c :: (u ++ lineFeed :: v) = c :: (u ++ [lineFeed]) ++ v := by simp
          rw [if_pos rfl, if_pos rfl, List.map_append, List.append_assoc, List.map_singleton, line]

theorem filterMap_recordAt_eq_nil : ((lineTexts false text).map (· ++ rest)).filterMap recordAt = []
    ↔ ¬ HoldsRecord text rest := by
  rw [List.filterMap_eq_nil_iff]
  simp only [List.forall_mem_map, recordAt_eq_none, HoldsRecord, not_exists, not_and]

/-- What is read of a log that begins with a record. -/
theorem parseDiagnosticLog_cons {read : Detail}
    (reads : recordAt (formatDiagnosticRecord record ++ written records cut) = some read) :
    parseDiagnosticLog (written (record :: records) cut) = read
      :: (((lineTexts false (formatDiagnosticRecord record)).map (· ++ written records cut)).filterMap recordAt
        ++ parseDiagnosticLog (written records cut)) := by
  have whole : formatDiagnosticRecord record ≠ [] := by simp [formatDiagnosticRecord_eq]
  have split : written (record :: records) cut
      = (front record ++ endMarker record.id.text) ++ lineFeed :: written records cut := by
    rw [written, List.map_cons, List.flatten_cons, formatDiagnosticRecord_eq, written]
    simp only [List.append_assoc, List.cons_append, List.nil_append]
  rw [parseDiagnosticLog_eq, split, lineTexts_append_line, ← formatDiagnosticRecord_eq, lineTexts_true whole,
    List.map_cons, List.cons_append, List.filterMap_cons, reads, List.filterMap_append, ← parseDiagnosticLog_eq]

/-- Every record is read. -/
theorem length_le_parseDiagnosticLog (records : List ProxyErrorDiagnosticRecordDto) (cut : JsString) :
    records.length ≤ (parseDiagnosticLog (written records cut)).length := by
  induction records with
  | nil => exact Nat.zero_le _
  | cons record records ih =>
      obtain ⟨read, reads, _⟩ := recordAt_written record (written records cut)
      rw [parseDiagnosticLog_cons reads, List.length_cons, List.length_cons, List.length_append]
      omega

/-- The records are read, and nothing else, exactly if the log is undisturbed. -/
theorem parseDiagnosticLog_written : parseDiagnosticLog (written records cut) = records.map detail
    ↔ Undisturbed records cut := by
  induction records with
  | nil =>
      have only : written [] cut = cut := List.nil_append cut
      rw [only, List.map_nil, Undisturbed, parseDiagnosticLog_eq, ← recordAt_eq_none,
        ← filterMap_recordAt_eq_nil]
      simp only [List.append_nil, List.map_id']
      cases cut with
      | nil => exact iff_of_true rfl ⟨rfl, rfl⟩
      | cons c text =>
          rw [lineTexts_true (List.cons_ne_nil c text), List.filterMap_cons]
          cases recordAt (c :: text) <;> simp
  | cons record records ih =>
      obtain ⟨read, reads, own⟩ := recordAt_written record (written records cut)
      rw [parseDiagnosticLog_cons reads, Undisturbed, ← own, ← filterMap_recordAt_eq_nil, ← ih, List.map_cons,
        List.cons.injEq]
      refine and_congr_right fun _ => ⟨fun rest => ?_, fun ⟨nothing, rest⟩ => by rw [nothing, rest]; rfl⟩
      have lengths := congrArg List.length rest
      have all := length_le_parseDiagnosticLog records cut
      rw [List.length_append, List.length_map] at lengths
      have nothing : ((lineTexts false (formatDiagnosticRecord record)).map
          (· ++ written records cut)).filterMap recordAt = [] := List.length_eq_zero_iff.mp (by omega)
      refine ⟨nothing, ?_⟩
      rw [nothing] at rest
      exact rest

end Log


end GhcpConsole.Diagnostics
