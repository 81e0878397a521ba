import GhcpConsole.Diagnostics.PayloadBounds
import GhcpConsole.Diagnostics.Redaction

/-!
# What a failure summary shows

The length of a summary, the bodies that it takes a reason from, and the known values that it does not show.
-/

namespace GhcpConsole.Diagnostics

variable {input : HttpFailureSummaryInput}

section Body

variable {bytes : List UInt8} {fields : Fields}

/-- The body is a text of JSON, or of a few events whose data is JSON. -/
def ParsesWhole (text mediaType : JsString) : Prop :=
  ((mediaType = utf16 "application/json" ∨ isJsonSuffixed mediaType) ∧ (JsonValue.parse text).isSome)
    ∨ (mediaType = utf16 "text/event-stream"
      ∧ ((eventsOf text).filter fun event => JsString.trim event ≠ []).length ≤ maxEvents
      ∧ ∀ data ∈ parsedData (eventsOf text), (JsonValue.parse data).isSome)

/-- A failure with a body that was captured whole, is not too long and can be parsed. -/
def Admissible (input : HttpFailureSummaryInput) : Prop :=
  ∃ status body bytes text, validStatus input = some status ∧ ¬ (200 ≤ status ∧ status < 300)
    ∧ input.body = some body ∧ body.buffer = some bytes ∧ body.complete = true ∧ body.truncated = false
    ∧ bytes.length ≤ maxBytes ∧ ({} : TextDecoder).fatal bytes = some text
    ∧ ParsesWhole (text.flatMap Char.units) (mediaType input)

theorem exists_of_capturedBytes (h : capturedBytes input = some bytes) :
    ∃ status body, validStatus input = some status ∧ ¬ (200 ≤ status ∧ status < 300) ∧ input.body = some body
      ∧ body.buffer = some bytes ∧ body.complete = true ∧ body.truncated = false ∧ bytes.length ≤ maxBytes := by
  obtain ⟨status, valid, h⟩ := Option.bind_eq_some_iff.mp h
  obtain ⟨body, captured, h⟩ := Option.bind_eq_some_iff.mp h
  split at h
  · cases h
  · rename_i admitted
    simp only [not_or, not_not] at admitted
    obtain ⟨buffer, short⟩ := Option.filter_eq_some_iff.mp h
    exact ⟨status, body, valid, admitted.1, captured, buffer, admitted.2.1, admitted.2.2, by simpa using short⟩

theorem parsesWhole_of_parsePayload {text mediaType : JsString}
    (h : parsePayload text mediaType = some (some fields)) : ParsesWhole text mediaType := by
  unfold parsePayload at h
  split at h
  · rename_i json
    obtain ⟨value, parsed, _⟩ := Option.map_eq_some_iff.mp h
    exact .inl ⟨json, by rw [parsed]; rfl⟩
  · split at h
    · cases h
    · rename_i stream
      dsimp only at h
      split at h
      · cases h
      · rename_i few
        obtain ⟨values, parsed, _⟩ := Option.map_eq_some_iff.mp h
        refine .inr ⟨not_not.mp stream, Nat.not_lt.mp few, fun data mem => ?_⟩
        have read : JsonValue.parse data ∈ values.map some := by
          rw [← map_of_mapM parsed]
          exact List.mem_map_of_mem mem
        obtain ⟨value, _, same⟩ := List.mem_map.mp read
        rw [← same]
        rfl

theorem exists_of_payloadFields (h : payloadFields input = some fields) :
    ∃ bytes text, capturedBytes input = some bytes ∧ ({} : TextDecoder).fatal bytes = some text
      ∧ parsePayload (text.flatMap Char.units) (mediaType input) = some (some fields) := by
  obtain ⟨bytes, captured, h⟩ := Option.bind_eq_some_iff.mp h
  obtain ⟨text, decoded, h⟩ := Option.bind_eq_some_iff.mp h
  exact ⟨bytes, text, captured, decoded, Option.join_eq_some_iff.mp h⟩

theorem admissible_of_payloadFields (h : payloadFields input = some fields) : Admissible input := by
  obtain ⟨bytes, text, captured, decoded, parsed⟩ := exists_of_payloadFields h
  obtain ⟨status, body, valid, failed, isBody, buffer, complete, whole, short⟩ := exists_of_capturedBytes captured
  exact ⟨status, body, bytes, text, valid, failed, isBody, buffer, complete, whole, short, decoded,
    parsesWhole_of_parsePayload parsed⟩

theorem atMost_payloadFields (h : payloadFields input = some fields) : fields.AtMost maxBytes := by
  obtain ⟨bytes, text, captured, decoded, parsed⟩ := exists_of_payloadFields h
  obtain ⟨_, _, _, _, _, _, _, _, short⟩ := exists_of_capturedBytes captured
  have length := length_fatal decoded
  rw [if_pos rfl] at length
  intro value mem held found
  exact AtMost.mono (atMost_parsePayload parsed value mem held found) (by omega)

end Body

section Length

open JsString

theorem length_codePoints_le (text : JsString) : (codePoints text).length ≤ text.length := by
  induction text with
  | nil => exact Nat.le_refl _
  | cons u text ih =>
      have : (codePoints (u :: text)).length ≤ 1 + (codePoints text).length := length_codePoints_cons_le
      rw [List.length_cons]
      omega

theorem validStatus_lt {status : Nat} (h : validStatus input = some status) : status < 10 ^ 3 := by
  obtain ⟨n, _, h⟩ := Option.bind_eq_some_iff.mp h
  split at h
  · cases h
    omega
  · cases h

theorem length_summaryPrefix (input : HttpFailureSummaryInput) : (summaryPrefix input).length ≤ 8 := by
  have bound : (validStatus input).getD 502 < 10 ^ 3 := by
    cases valid : validStatus input with
    | none => decide
    | some status => exact validStatus_lt valid
  have digits := (Nat.digits_length_le_iff (by decide) _).mpr bound
  rw [summaryPrefix, List.length_append, Double.Decimal.digitUnits, List.length_map, List.length_reverse]
  exact Nat.add_le_add_left digits 5

theorem reference_cases (input : HttpFailureSummaryInput) :
    reference input = [] ∨ (reference input).length = 44 := by
  unfold reference
  cases valid : input.diagnosticId.filter isUuid with
  | none => exact .inl rfl
  | some id =>
      have isValid := (Option.filter_eq_some_iff.mp valid).2
      rw [isUuid, Bool.and_eq_true, decide_eq_true_eq] at isValid
      refine .inr ?_
      rw [Option.map_some, Option.getD_some, List.length_append, List.length_append, isValid.1]
      rfl

theorem length_reference (input : HttpFailureSummaryInput) : (reference input).length ≤ 44 := by
  rcases reference_cases input with empty | length
  · rw [empty]
    exact Nat.zero_le _
  · exact length.le

theorem reference_of_uuid {id : JsString} (h : input.diagnosticId = some id) (valid : isUuid id = true) :
    reference input = utf16 " [ref: " ++ id ++ utf16 "]" := by
  rw [reference, h, Option.filter_some, if_pos valid]
  rfl

theorem reference_suffix (input : HttpFailureSummaryInput) : reference input <:+ summarizeHttpFailure input := by
  unfold summarizeHttpFailure
  split
  · exact List.suffix_append _ _
  · exact List.suffix_append _ _

theorem length_summarizeHttpFailure (input : HttpFailureSummaryInput) :
    (codePoints (summarizeHttpFailure input)).length ≤ maxSummary := by
  have ref := length_reference input
  have refPoints := length_codePoints_le (reference input)
  unfold summarizeHttpFailure
  split
  · have := length_summaryPrefix input
    refine (length_codePoints_le _).trans ?_
    rw [List.length_append]
    exact Nat.le_trans (by omega) (show 52 ≤ maxSummary by decide)
  · rename_i detail _
    dsimp only
    have budget : (codePoints (reference input)).length + 1 ≤ maxSummary :=
      Nat.le_trans (by omega) (show 45 ≤ maxSummary by decide)
    refine (length_codePoints_append_le _ _).trans ?_
    split
    · have taken : (codePoints ((codePoints (summaryPrefix input ++ utf16 ": " ++ detail)).take
          (maxSummary - (codePoints (reference input)).length - 1)).flatten).length
          ≤ maxSummary - (codePoints (reference input)).length - 1 := by
        refine (length_codePoints_flatten_le fun part mem => ?_).trans (List.length_take_le _ _)
        exact length_codePoints_of_mem (List.mem_of_mem_take mem)
      have dots := length_codePoints_append_le ((codePoints (summaryPrefix input ++ utf16 ": " ++ detail)).take
        (maxSummary - (codePoints (reference input)).length - 1)).flatten (utf16 "…")
      have one : (codePoints (utf16 "…")).length = 1 := by decide
      omega
    · rename_i fits
      rw [flatten_codePoints]
      omega

end Length

/-- A detail comes from a body that can be parsed. -/
theorem admissible_of_detail (h : summarizeHttpFailure input ≠ summaryPrefix input ++ reference input) :
    Admissible input := by
  cases found : payloadFields input with
  | none =>
      refine absurd ?_ h
      rw [summarizeHttpFailure, found]
      rfl
  | some fields => exact admissible_of_payloadFields found

section Redacted

variable {fields : Fields} {text : JsString} {value : Option JsonValue} {u : CodeUnit}

/-- No known value is in the text, with or without its scheme, but where a mark overlaps it. -/
def Withholds (values : List (Option JsString)) (text : JsString) : Prop :=
  ∀ value, some value ∈ values → ∀ s ∈ variants value, s ≠ [] → ¬ Exposed redacted s text

/-- No value is cut in the text where normalising it takes something out. -/
def NoneCut (values : List (Option JsString)) (text : JsString) : Prop :=
  ∀ value, some value ∈ values → ∀ s ∈ variants value, s ≠ [] → ¬ Cut s text

theorem withholds_sanitize {values : List (Option JsString)} {message : JsString}
    (held : JsonValue.AtMost maxBytes (.str message)) (uncut : NoneCut values (normalize message))
    (h : sanitize (some (.str message)) values = some text) : Withholds values text := by
  cases held with
  | str short =>
      intro value mem s isVariant nonempty exposed
      exact uncut value mem s isVariant nonempty (cut_of_exposed h mem isVariant nonempty short exposed)

theorem identifier_units (h : isIdentifier text = true) : ∀ u ∈ text, 0x2D ≤ u.toNat ∧ u.toNat ≤ 0x7A := by
  have letter : ∀ u, isLetter u = true → 0x2D ≤ u.toNat ∧ u.toNat ≤ 0x7A := by
    intro u isLetter
    rw [Diagnostics.isLetter, lowerAscii] at isLetter
    split at isLetter
    · rename_i upper
      simp only [Bool.and_eq_true, decide_eq_true_eq, UInt16.le_iff_toNat_le] at upper
      have := upper.1
      have := upper.2
      simp at *
      omega
    · simp only [isSmallLetter, Bool.and_eq_true, decide_eq_true_eq, UInt16.le_iff_toNat_le] at isLetter
      have := isLetter.1
      have := isLetter.2
      simp [codeUnit] at *
      omega
  cases text with
  | nil => nofun
  | cons first text =>
      rw [isIdentifier, Bool.and_eq_true, Bool.and_eq_true, List.all_eq_true] at h
      refine List.forall_mem_cons.mpr ⟨letter first h.1.1, fun u mem => ?_⟩
      have kind := h.1.2 u mem
      rw [Bool.or_eq_true, Bool.or_eq_true] at kind
      rcases kind with (isLetter | digit) | other
      · exact letter u isLetter
      · simp only [Double.isDigit, Bool.and_eq_true, decide_eq_true_eq, UInt16.le_iff_toNat_le] at digit
        have := digit.1
        have := digit.2
        simp at *
        omega
      · rw [isOneOf, List.contains_iff_mem] at other
        have all : ∀ u ∈ utf16 "_.:-", 0x2D ≤ u.toNat ∧ u.toNat ≤ 0x7A := by decide
        exact all u other

theorem isChain_of_forall {R : CodeUnit → CodeUnit → Prop} (h : ∀ a ∈ text, ∀ b, R a b) : text.IsChain R := by
  induction text with
  | nil => exact .nil
  | cons a text ih =>
      rw [List.forall_mem_cons] at h
      exact List.isChain_cons.mpr ⟨fun b _ => h.1 b, ih h.2⟩

/-- An identifier has none of the characters that normalising changes. -/
theorem tidy_of_identifier (h : isIdentifier text = true) : Tidy text := by
  have units := identifier_units h
  have noSpace : ∀ u ∈ text, u ≠ space := by
    rintro u mem rfl
    exact absurd (units _ mem).1 (by decide)
  refine ⟨fun u mem => ?_, fun u mem blank => ?_, isChain_of_forall fun a mem b => ?_,
    isChain_of_forall fun a mem b both => noSpace a mem both.1,
    fun first => noSpace _ (List.mem_of_mem_head? first) rfl, fun last => noSpace _ (List.mem_of_getLast? last) rfl⟩
  · have := units u mem
    rw [Bool.eq_false_iff]
    intro format
    simp only [isFormat, Bool.or_eq_true, Bool.and_eq_true, decide_eq_true_eq] at format
    omega
  · have := units u mem
    simp only [isControl, isSeparator, Bool.or_eq_true, Bool.and_eq_true, decide_eq_true_eq,
      UInt16.le_iff_toNat_le, ← UInt16.toNat_inj] at blank
    simp at blank
    omega
  · have := units a mem
    have notHigh : isHighSurrogate a = false := by
      rw [Bool.eq_false_iff]
      intro high
      simp only [isHighSurrogate, Bool.and_eq_true, decide_eq_true_eq, UInt16.le_iff_toNat_le] at high
      have := high.1
      simp at this
      omega
    rw [JsString.joins, notHigh, Bool.false_and, Bool.false_and]

theorem withholds_identifier {values : List (Option JsString)} (held : ∀ v ∈ value, JsonValue.AtMost maxBytes v)
    (h : identifier value values = some text) : Withholds values text := by
  obtain ⟨safe, sanitized, h⟩ := Option.bind_eq_some_iff.mp h
  split at h
  · rename_i own
    split at h
    · rename_i same
      cases h
      obtain ⟨isIdentifier, rfl⟩ := same
      have tidy := tidy_of_identifier isIdentifier
      refine withholds_sanitize (held _ rfl) (fun _ _ s _ _ => ?_) sanitized
      rw [tidy.normalize_eq_self]
      exact not_cut (JsString.removeFormat_eq_self_iff.mpr ⟨tidy.format, tidy.pairs⟩)
    · cases h
  · cases h

end Redacted

section Summaries

/-- A summary is short, ends with the reference, and takes its detail from an admissible body; what it shows of
code and type has no known value. -/
structure Summarizes (input : HttpFailureSummaryInput) : Prop where
  short : (JsString.codePoints (summarizeHttpFailure input)).length ≤ maxSummary
  referenced : ∀ id, input.diagnosticId = some id → isUuid id = true →
    utf16 " [ref: " ++ id ++ utf16 "]" <:+ summarizeHttpFailure input
  admitted : summarizeHttpFailure input ≠ summaryPrefix input ++ reference input → Admissible input
  code : ∀ fields text, payloadFields input = some fields →
    identifier fields.code (sensitive input) = some text → Withholds (sensitive input) text
  type : ∀ fields text, payloadFields input = some fields →
    identifier fields.type (sensitive input) = some text → Withholds (sensitive input) text

/-- The message has no known value. -/
def WithholdsMessage (input : HttpFailureSummaryInput) : Prop :=
  ∀ fields text, payloadFields input = some fields →
    sanitize fields.message (sensitive input) = some text → Withholds (sensitive input) text

/-- The message is not shown: it has tags or entities in it, or there are too many values. -/
def IsWithheld (values : List (Option JsString)) (message : JsString) : Prop :=
  ∀ text, replaceKnown (normalize message) values = some text →
    (Regex.test htmlTag none text || Regex.test htmlEntity none text) = true

/-- The message is not shown, or none of the values is cut in it by a character that it has after it was
normalised, and that normalising it again takes out. -/
def Uncut (input : HttpFailureSummaryInput) : Prop :=
  ∀ fields message, payloadFields input = some fields → fields.message = some (.str message) →
    IsWithheld (sensitive input) message ∨ NoneCut (sensitive input) (normalize message)

/-- Nothing in the message is redacted, it has no mark of its own, and the values are no parts of pairs. -/
structure Untouched (values : List (Option JsString)) (message : JsString) : Prop where
  unknown : replaceKnown (normalize message) values = some (normalize message)
  harmless : redactPatterns (normalize message) = normalize message
  unmarked : ¬ redacted <:+: normalize (normalize message)
  pairs : ∀ value, some value ∈ values → ∀ s ∈ variants value, WholePairs s

/-- In a message without lone halves of surrogate pairs no format character comes about. -/
theorem uncut_of_chars (h : ∀ fields message, payloadFields input = some fields →
      fields.message = some (.str message) → ∃ chars : List Char, message = chars.flatMap Char.units) :
    Uncut input := by
  intro fields message payload own
  obtain ⟨chars, rfl⟩ := h fields message payload own
  exact .inr fun _ _ _ _ _ => not_cut (removeFormat_normalize chars)

theorem sanitize_of_isWithheld {values : List (Option JsString)} {message : JsString}
    (h : IsWithheld values message) : sanitize (some (.str message)) values = none := by
  rw [sanitize, Option.bind_eq_none_iff]
  exact fun text known => if_pos (h text known)

/-- A value that is cut is shown where nothing else is done to the message. -/
theorem noneCut_of_withholds {values : List (Option JsString)} {message : JsString} (untouched : Untouched values message)
    (shown : ¬ IsWithheld values message)
    (h : ∀ text, sanitize (some (.str message)) values = some text → Withholds values text) :
    NoneCut values (normalize message) := by
  intro value mem s isVariant nonempty cut
  have part := infix_of_cut (untouched.pairs value mem s isVariant) nonempty cut
  have isText : normalize (normalize message) ≠ [] := fun empty => nonempty (List.infix_nil.mp (empty ▸ part))
  have isShown : sanitize (some (.str message)) values = some (normalize (normalize message)) := by
    have plain : ¬ (Regex.test htmlTag none (normalize message)
        || Regex.test htmlEntity none (normalize message)) = true := by
      intro html
      refine shown fun text known => ?_
      rw [untouched.unknown, Option.some.injEq] at known
      exact known ▸ html
    rw [sanitize, untouched.unknown, Option.bind_some, if_neg plain, untouched.harmless, nonEmpty, if_neg isText]
  obtain ⟨u, v, split⟩ := part
  refine h _ isShown value mem s isVariant nonempty ⟨u, v, split.symm, fun a b mark => ?_⟩
  exact absurd ⟨a, b, mark.symm⟩ untouched.unmarked

/-- No value is shown in the message if it is uncut, and of a message that nothing else is done to, only then. -/
theorem summarizeHttpFailure_redacts (input : HttpFailureSummaryInput) :
    Summarizes input ∧ (Uncut input → WithholdsMessage input)
      ∧ ((∀ fields message, payloadFields input = some fields → fields.message = some (.str message) →
        Untouched (sensitive input) message) → WithholdsMessage input → Uncut input) := by
  refine ⟨⟨length_summarizeHttpFailure input, fun id isId valid => ?_, admissible_of_detail,
    fun fields text payload shown => ?_, fun fields text payload shown => ?_⟩, fun uncut fields text payload shown => ?_,
    fun untouched withheld fields message payload own => ?_⟩
  · rw [← reference_of_uuid isId valid]
    exact reference_suffix input
  · exact withholds_identifier (atMost_payloadFields payload _ (by simp)) shown
  · exact withholds_identifier (atMost_payloadFields payload _ (by simp)) shown
  · have held := atMost_payloadFields payload fields.message (by simp)
    have uncut := fun message => uncut fields message payload
    cases own : fields.message with
    | none =>
        rw [own] at shown
        cases shown
    | some value =>
        cases value with
        | str message =>
            rw [own] at shown held
            rcases uncut message own with isWithheld | uncut
            · rw [sanitize_of_isWithheld isWithheld] at shown
              cases shown
            · exact withholds_sanitize (held _ rfl) uncut shown
        | _ =>
            rw [own] at shown
            cases shown
  · by_cases isWithheld : IsWithheld (sensitive input) message
    · exact .inl isWithheld
    · refine .inr (noneCut_of_withholds (untouched fields message payload own) isWithheld fun text shown => ?_)
      exact withheld fields text payload (own ▸ shown)

namespace Sample

/-- A response with a message in which the secret is cut by a character without width. -/
def failure (message : String) : HttpFailureSummaryInput where
  status := some 502
  contentType := some (utf16 "application/json")
  body := some
    { buffer := some ((utf16 ("\x7b\"error\":\"" ++ message ++ "\"\x7d")).map fun u => UInt8.ofNat u.toNat)
      complete := true
      truncated := false }
  sensitiveValues := some [some (utf16 "abcdef")]
  diagnosticId := none

def messageOf (input : HttpFailureSummaryInput) : Option JsString :=
  (payloadFields input).bind fun fields =>
    match fields.message with
    | some (.str message) => some message
    | _ => none

theorem messageOf_eq {input : HttpFailureSummaryInput} {fields : Fields} {message : JsString}
    (payload : payloadFields input = some fields) (own : fields.message = some (.str message)) :
    messageOf input = some message := by
  rw [messageOf, payload, Option.bind_some, own]

end Sample

/-- The cut is not there any more when the values are looked for, or the text has a tag in it. -/
theorem summarizeHttpFailure_redacts_cut : WithholdsMessage (Sample.failure "abc\\u200bdef")
    ∧ WithholdsMessage (Sample.failure "<b>abc\\udb40\\u200b\\udc01def") := by
  have read : (Sample.messageOf (Sample.failure "abc\\u200bdef")).all
        (fun message => JsString.removeFormat (normalize message) = normalize message) = true
      ∧ (Sample.messageOf (Sample.failure "<b>abc\\udb40\\u200b\\udc01def")).all (fun message =>
        (replaceKnown (normalize message) [some (utf16 "abcdef")]).all (Regex.test htmlTag none)) = true := by
    decide +kernel
  refine ⟨(summarizeHttpFailure_redacts _).2.1 fun fields message payload own => .inr fun _ _ _ _ _ => ?_,
    (summarizeHttpFailure_redacts _).2.1 fun fields message payload own => .inl fun text known => ?_⟩
  · have plain := read.1
    rw [Sample.messageOf_eq payload own] at plain
    exact not_cut (of_decide_eq_true plain)
  · have tagged := read.2
    rw [Sample.messageOf_eq payload own, Option.all_some,
      show replaceKnown (normalize message) [some (utf16 "abcdef")] = some text from known] at tagged
    rw [Bool.or_eq_true]
    exact .inl tagged

/-- The first half of a surrogate pair, a character without width, and the second half. When the character is
gone, the pair is one that is removed as well, but after the values have been looked for. -/
def leaking : HttpFailureSummaryInput := Sample.failure "abc\\udb40\\u200b\\udc01def"

theorem summarizeHttpFailure_leaks : ¬ (Summarizes leaking ∧ WithholdsMessage leaking) := by
  rintro ⟨_, withheld⟩
  have shown : ((payloadFields leaking).bind fun fields => sanitize fields.message (sensitive leaking))
      = some (utf16 "abcdef") := by decide +kernel
  obtain ⟨fields, payload, shown⟩ := Option.bind_eq_some_iff.mp shown
  refine withheld fields _ payload shown (utf16 "abcdef") (by decide) (utf16 "abcdef") (by decide) (by decide) ?_
  refine ⟨[], [], rfl, fun a b split => absurd (congrArg List.length split) ?_⟩
  have length : redacted.length = 10 := rfl
  have six : (utf16 "abcdef").length = 6 := rfl
  rw [List.length_append, List.length_append, length, six]
  omega

end Summaries

end GhcpConsole.Diagnostics
