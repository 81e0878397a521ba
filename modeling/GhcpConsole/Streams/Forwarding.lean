import GhcpConsole.Lib.Json
import GhcpConsole.Streams.Sse

/-!
# Forwarding a stream

`forwardSseEvents` writes the events of an upstream stream to the client and collects the usage they
report. What is written and collected is the same however the stream arrives (`sse_forwarding`).
-/

namespace GhcpConsole.Streams

variable {ν : Type} [JsNumber ν]

/-! ## Usage -/

structure UsageStats (ν : Type) where
  inputTokens : Option ν := none
  outputTokens : Option ν := none
  cacheTokens : Option ν := none
  cacheInputTokens : Option ν := none
  cacheWriteTokens : Option ν := none
deriving DecidableEq

/-- `typeof value === 'number' && Number.isFinite(value)`. -/
def numberField : Option (Json ν) → Option ν
  | some (.num value) => if JsNumber.isFinite value then some value else none
  | _ => none

def addDefined (current : Option ν) (value : ν) : ν := JsNumber.add (current.getD JsNumber.zero) value

def sumDefined (values : List (Option ν)) : Option ν :=
  values.foldl (fun total value =>
    match value with
    | some value => some (addDefined total value)
    | none => total) none

def cacheCreationInputTokens (cacheCreation : Option (Json ν)) : Option ν :=
  sumDefined [numberField (Json.field "ephemeral_5m_input_tokens" cacheCreation),
    numberField (Json.field "ephemeral_1h_input_tokens" cacheCreation)]

def usageFromObject (usage : Json ν) : UsageStats ν :=
  let number := fun name => numberField (Json.field name (some usage))
  let promptDetails := Json.field "prompt_tokens_details" (some usage)
  let inputDetails := Json.field "input_tokens_details" (some usage)
  let cacheInputTokens := (number "cache_read_input_tokens").or
    ((number "input_cached_tokens").or
      ((numberField (Json.field "cached_tokens" promptDetails)).or
        (numberField (Json.field "cached_tokens" inputDetails))))
  let cacheWriteTokens := (number "cache_creation_input_tokens").or
    (cacheCreationInputTokens (Json.field "cache_creation" (some usage)))
  { inputTokens := (number "prompt_tokens").or (number "input_tokens")
    outputTokens := (number "completion_tokens").or (number "output_tokens")
    cacheTokens := (number "cache_tokens").or (sumDefined [cacheInputTokens, cacheWriteTokens])
    cacheInputTokens
    cacheWriteTokens }

def addTokenDetail (stats : UsageStats ν) (detail : Json ν) : UsageStats ν :=
  match (Json.field "token_type" (some detail)).bind Json.string?,
      numberField (Json.field "token_count" (some detail)) with
  | some tokenType, some tokenCount =>
      if tokenType = "input" then
        { stats with inputTokens := some (addDefined stats.inputTokens tokenCount) }
      else if tokenType = "output" then
        { stats with outputTokens := some (addDefined stats.outputTokens tokenCount) }
      else if tokenType = "cache_read" then
        { stats with cacheInputTokens := some (addDefined stats.cacheInputTokens tokenCount) }
      else if tokenType = "cache_write" ∨ tokenType = "cache_creation" then
        { stats with cacheWriteTokens := some (addDefined stats.cacheWriteTokens tokenCount) }
      else if "cache_".toList.isPrefixOf tokenType.toList then
        { stats with cacheTokens := some (addDefined stats.cacheTokens tokenCount) }
      else stats
  | _, _ => stats

def usageFromCopilotObject (copilotUsage : Json ν) : UsageStats ν :=
  match Json.field "token_details" (some copilotUsage) with
  | some (.arr details) => details.foldl addTokenDetail {}
  | _ => {}

def mergeUsage (target source : UsageStats ν) : UsageStats ν where
  inputTokens := source.inputTokens.or target.inputTokens
  outputTokens := source.outputTokens.or target.outputTokens
  cacheTokens := source.cacheTokens.or target.cacheTokens
  cacheInputTokens := source.cacheInputTokens.or target.cacheInputTokens
  cacheWriteTokens := source.cacheWriteTokens.or target.cacheWriteTokens

/-- `recordField`: only objects are merged. -/
def mergeRecord (read : Json ν → UsageStats ν) (usage : UsageStats ν) :
    Option (Json ν) → UsageStats ν
  | some (.obj members) => mergeUsage usage (read (.obj members))
  | _ => usage

mutual

def collectUsageFromValue : Json ν → UsageStats ν → UsageStats ν
  | .arr items, usage => collectUsageFromItems items usage
  | .obj members, usage =>
      let usage := mergeRecord usageFromObject usage (OrderedMap.get members "usage")
      let usage := mergeRecord usageFromCopilotObject usage (OrderedMap.get members "copilot_usage")
      collectUsageFromMembers members usage
  | _, usage => usage

def collectUsageFromItems : List (Json ν) → UsageStats ν → UsageStats ν
  | [], usage => usage
  | item :: items, usage => collectUsageFromItems items (collectUsageFromValue item usage)

/-- Over `Object.values`. -/
def collectUsageFromMembers : List (String × Json ν) → UsageStats ν → UsageStats ν
  | [], usage => usage
  | (_, value) :: members, usage =>
      collectUsageFromMembers members (collectUsageFromValue value usage)

end

/-! ## Events -/

/-- The data lines of an event, each without one space at its start. -/
def sseData (eventText : List Char) : Option (List Char) :=
  let dataLines := ((splitLines eventText).filter ("data:".toList.isPrefixOf ·)).map fun line =>
    match line.drop 5 with
    | ' ' :: data => data
    | data => data
  if dataLines = [] then none else some (joinLines dataLines)

def sseEventName (eventText : List Char) : Option (List Char) :=
  match (splitLines eventText).find? ("event:".toList.isPrefixOf ·) with
  | some line => if trim (line.drop 6) = [] then none else some (trim (line.drop 6))
  | none => none

def isCopilotDoneEvent (eventText : List Char) : Bool :=
  if (sseData eventText).map trim ≠ some "[DONE]".toList then false
  else sseEventName eventText = none || sseEventName eventText = some "message".toList

def collectSseEventUsage (json : JsonText ν) (eventText : List Char) (usage : UsageStats ν) :
    UsageStats ν :=
  match sseData eventText with
  | none => usage
  | some data =>
      if data = [] ∨ data = "[DONE]".toList then usage
      else
        match json.parse data with
        | some value => collectUsageFromValue value usage
        | none => usage

/-- `model` is a string other than the canonical one. -/
def otherModel (canonicalModel : String) (value : Option (Json ν)) : Bool :=
  match (Json.field "model" value).bind Json.string? with
  | some model => model ≠ canonicalModel
  | none => false

def withModel (canonicalModel : String) (members : OrderedMap String (Json ν)) : Json ν :=
  .obj (members.set "model" (.str canonicalModel))

/-- The first of the value, its `message` and its `response` that has another model gets the
canonical one. -/
def setResponseModel (value : Json ν) (canonicalModel : String) : Option (Json ν) :=
  match value with
  | .obj members =>
      let nested := fun name =>
        match OrderedMap.get members name with
        | some (.obj inner) => some (Json.obj (OrderedMap.set members name (withModel canonicalModel inner)))
        | _ => none
      if otherModel canonicalModel (some value) then some (withModel canonicalModel members)
      else if otherModel canonicalModel (OrderedMap.get members "message") then nested "message"
      else if otherModel canonicalModel (OrderedMap.get members "response") then nested "response"
      else none
  | _ => none

/-- The first data line carries the new data; the other ones go. -/
def replaceData (serialized : List Char) : List (List Char) → List (List Char)
  | [] => []
  | line :: lines =>
      if "data:".toList.isPrefixOf line then serialized :: lines else line :: replaceData serialized lines

def canonicalizeSseEvent (json : JsonText ν) (canonicalModel : Option String)
    (eventText : List Char) : List Char :=
  match canonicalModel.filter (· ≠ ""), sseData eventText with
  | some canonicalModel, some data =>
      if data = [] ∨ data = "[DONE]".toList then eventText
      else
        match (json.parse data).bind (setResponseModel · canonicalModel) with
        | none => eventText
        | some value =>
            let serialized := "data: ".toList ++ json.stringify value
            let lines := replaceData serialized (splitLines eventText)
            joinLines (lines.filter fun line =>
              !"data:".toList.isPrefixOf line || line = serialized)
  | _, _ => eventText

/-! ## Forwarding -/

/-- What has been written to the client, for which events, and the usage. -/
structure Forwarded (ν : Type) where
  written : List (List Char) := []
  events : List (List Char) := []
  usage : UsageStats ν := {}

/-- What does not change while a stream is forwarded. -/
structure Forwarding (ν : Type) where
  json : JsonText ν
  canonicalModel : Option String
  filterDone : Bool

namespace Forwarding

variable (o : Forwarding ν)

/-- The pass of the loop for one event, and of the remainder as an event without a delimiter. -/
def forwardEvent (out : Forwarded ν) (s : Segment Char) : Forwarded ν :=
  let usage := collectSseEventUsage o.json s.body out.usage
  if !o.filterDone || !isCopilotDoneEvent s.body then
    { usage
      events := out.events ++ [s.body]
      written :=
        out.written ++ [canonicalizeSseEvent o.json o.canonicalModel s.body ++ s.delimiter] }
  else { out with usage }

def forwardSseEvents (out : Forwarded ν) (buffer : List Char) : Forwarded ν × List Char :=
  eventBoundaries.drain o.forwardEvent out buffer

def flushSseRemainder (out : Forwarded ν) (buffer : List Char) : Forwarded ν :=
  if buffer = [] then out else o.forwardEvent out ⟨buffer, []⟩

/-- The loop over the chunks of a stream. -/
def forward (chunks : List (List Char)) : Forwarded ν :=
  let (out, sseBuffer) := chunks.foldl (fun (out, sseBuffer) chunk =>
    o.forwardSseEvents out (sseBuffer ++ chunk)) ({}, [])
  o.flushSseRemainder out sseBuffer

end Forwarding

/-! ## What is written -/

/-- The events of a text with their delimiters; what no delimiter ends is the last one. -/
def sseEvents (text : List Char) : List (Segment Char) :=
  eventBoundaries.segments text
    ++ if eventBoundaries.remainder text = [] then [] else [⟨eventBoundaries.remainder text, []⟩]

/-- The data is `[DONE]`, and the event has no name or is a `message`. -/
def IsDone (eventText : List Char) : Prop :=
  (sseData eventText).map trim = some "[DONE]".toList
    ∧ (sseEventName eventText = none ∨ sseEventName eventText = some "message".toList)

instance (eventText : List Char) : Decidable (IsDone eventText) :=
  inferInstanceAs (Decidable (_ ∧ _))

/-- The data is an object that has another model, itself or in its message or response. -/
def CarriesOtherModel (json : JsonText ν) (canonicalModel : String) (eventText : List Char) : Prop :=
  ∃ data members, sseData eventText = some data ∧ json.parse data = some (.obj members)
    ∧ ∃ place ∈ [some (.obj members), OrderedMap.get members "message",
        OrderedMap.get members "response"],
      ∃ model, Json.field "model" place = some (.str model) ∧ model ≠ canonicalModel

section Written

variable {json : JsonText ν} {canonicalModel : Option String} {o : Forwarding ν} {out : Forwarded ν}
  {text : List Char}

omit [JsNumber ν] in
theorem isCopilotDoneEvent_eq (eventText : List Char) :
    isCopilotDoneEvent eventText = decide (IsDone eventText) := by
  unfold isCopilotDoneEvent IsDone
  split
  · rename_i hdata
    exact (decide_eq_false fun h => hdata h.1).symm
  · rename_i hdata
    rw [not_not] at hdata
    rw [← Bool.decide_or]
    exact decide_eq_decide.mpr (and_iff_right hdata).symm

omit [JsNumber ν] in
theorem otherModel_eq_true {model : String} {place : Option (Json ν)}
    (h : otherModel model place = true) :
    ∃ other, Json.field "model" place = some (.str other) ∧ other ≠ model := by
  unfold otherModel at h
  split at h
  · rename_i other hother
    obtain ⟨value, hvalue, hstring⟩ := Option.bind_eq_some_iff.mp hother
    exact ⟨other, hvalue.trans (congrArg some (Json.string?_eq_some.mp hstring)), of_decide_eq_true h⟩
  · cases h

omit [JsNumber ν] in
/-- Only an object that carries another model is changed. -/
theorem setResponseModel_eq_some {model : String} {value value' : Json ν}
    (h : setResponseModel value model = some value') : ∃ members, value = .obj members
      ∧ ∃ place ∈ [some (.obj members), OrderedMap.get members "message",
          OrderedMap.get members "response"], otherModel model place = true := by
  cases value with
  | obj members =>
      refine ⟨members, rfl, ?_⟩
      simp only [setResponseModel] at h
      split at h
      · rename_i hself
        exact ⟨_, List.mem_cons_self, hself⟩
      · split at h
        · rename_i hmessage
          exact ⟨_, List.mem_cons_of_mem _ List.mem_cons_self, hmessage⟩
        · split at h
          · rename_i hresponse
            exact ⟨_, List.mem_cons_of_mem _ (List.mem_cons_of_mem _ List.mem_cons_self), hresponse⟩
          · cases h
  | _ => cases h

omit [JsNumber ν] in
theorem canonicalizeSseEvent_none (eventText : List Char) :
    canonicalizeSseEvent json none eventText = eventText := rfl

omit [JsNumber ν] in
theorem canonicalizeSseEvent_of_not {model : String} {eventText : List Char}
    (h : ¬CarriesOtherModel json model eventText) :
    canonicalizeSseEvent json (some model) eventText = eventText := by
  unfold canonicalizeSseEvent
  split
  · rename_i model' data hmodel hdata
    obtain rfl : model = model' := (Option.filter_eq_some_iff.mp hmodel).1 |> Option.some.inj
    split
    · rfl
    · cases hvalue : (json.parse data).bind (setResponseModel · model) with
      | none => rfl
      | some value =>
          obtain ⟨parsed, hparsed, hset⟩ := Option.bind_eq_some_iff.mp hvalue
          obtain ⟨members, rfl, place, hplace, hother⟩ := setResponseModel_eq_some hset
          exact absurd ⟨data, members, hdata, hparsed, place, hplace, otherModel_eq_true hother⟩ h
  · rfl

/-- What one event adds to what is written. -/
def eventText (o : Forwarding ν) (s : Segment Char) : List Char :=
  if o.filterDone = true ∧ IsDone s.body then []
  else canonicalizeSseEvent o.json o.canonicalModel s.body ++ s.delimiter

theorem written_forwardEvent (s : Segment Char) : (o.forwardEvent out s).written.flatten
    = out.written.flatten ++ eventText o s := by
  unfold Forwarding.forwardEvent eventText
  rw [isCopilotDoneEvent_eq]
  by_cases hdone : o.filterDone = true ∧ IsDone s.body
  · simp [hdone]
  · rw [if_neg hdone]
    have hkept : (!o.filterDone || !decide (IsDone s.body)) = true := by
      simpa [imp_iff_not_or] using hdone
    rw [if_pos hkept]
    simp

theorem written_foldl (events : List (Segment Char)) :
    (events.foldl o.forwardEvent out).written.flatten
      = out.written.flatten ++ (events.map (eventText o)).flatten := by
  induction events generalizing out with
  | nil => simp
  | cons s events ih => rw [List.foldl_cons, ih, written_forwardEvent]; simp

/-- A stream is forwarded event by event, however it was cut. -/
theorem forward_eq (o : Forwarding ν) (chunks : List (List Char)) :
    o.forward chunks = (sseEvents chunks.flatten).foldl o.forwardEvent {} := by
  have hchunks : chunks.foldl (fun p chunk => o.forwardSseEvents p.1 (p.2 ++ chunk)) ({}, [])
      = ((eventBoundaries.segments chunks.flatten).foldl o.forwardEvent {},
        eventBoundaries.remainder chunks.flatten) :=
    (Splitter.drain_chunks (Forwarded.mk [] [] {}) chunks).trans Splitter.drain_eq_foldl
  show o.flushSseRemainder (chunks.foldl (fun p chunk => o.forwardSseEvents p.1 (p.2 ++ chunk))
    ({}, [])).1 (chunks.foldl (fun p chunk => o.forwardSseEvents p.1 (p.2 ++ chunk)) ({}, [])).2 = _
  rw [hchunks, Forwarding.flushSseRemainder, sseEvents, List.foldl_append]
  by_cases hempty : eventBoundaries.remainder chunks.flatten = []
  · rw [if_pos hempty, if_pos hempty, List.foldl_nil]
  · rw [if_neg hempty, if_neg hempty, List.foldl_cons, List.foldl_nil]

theorem written_forward (o : Forwarding ν) (chunks : List (List Char)) :
    (o.forward chunks).written.flatten
      = ((sseEvents chunks.flatten).map (eventText o)).flatten := by
  rw [forward_eq, written_foldl]
  rfl

omit [JsNumber ν] in
/-- An event that is dropped leaves nothing, not even its delimiter. -/
theorem flatten_eventText (o : Forwarding ν) (events : List (Segment Char)) :
    (events.map (eventText o)).flatten
      = ((events.filter fun s => ¬(o.filterDone = true ∧ IsDone s.body)).map fun s =>
          canonicalizeSseEvent o.json o.canonicalModel s.body ++ s.delimiter).flatten := by
  induction events with
  | nil => rfl
  | cons s events ih =>
      rw [List.map_cons, List.flatten_cons, ih, eventText]
      by_cases hdone : o.filterDone = true ∧ IsDone s.body
      · rw [if_pos hdone, List.filter_cons_of_neg (by simpa using hdone), List.nil_append]
      · rw [if_neg hdone, List.filter_cons_of_pos (by simpa [imp_iff_not_or] using hdone), List.map_cons,
          List.flatten_cons]

theorem flatten_sseEvents (text : List Char) :
    ((sseEvents text).map Segment.text).flatten = text := by
  have hflatten := eventBoundaries.flatten_segments text
  rw [sseEvents, List.map_append, List.flatten_append]
  split
  · rename_i hempty
    rwa [hempty] at hflatten
  · rw [List.map_singleton, List.flatten_singleton, Segment.text, List.append_nil]
    exact hflatten

end Written

/-- Forwarding does not depend on how the stream was cut into chunks, loses nothing but the events
that are done, and changes nothing but events that carry another model. -/
theorem sse_forwarding (o : Forwarding ν) (chunks : List (List Char)) :
    o.forward chunks = o.forward [chunks.flatten]
      ∧ ((sseEvents chunks.flatten).map Segment.text).flatten = chunks.flatten
      ∧ (Forwarding.forward ⟨o.json, none, false⟩ chunks).written.flatten = chunks.flatten
      ∧ (o.forward chunks).written.flatten = (((sseEvents chunks.flatten).filter fun s =>
          ¬(o.filterDone = true ∧ IsDone s.body)).map fun s =>
            canonicalizeSseEvent o.json o.canonicalModel s.body ++ s.delimiter).flatten
      ∧ ∀ s ∈ sseEvents chunks.flatten,
        (∀ model ∈ o.canonicalModel, ¬CarriesOtherModel o.json model s.body) →
          canonicalizeSseEvent o.json o.canonicalModel s.body = s.body := by
  refine ⟨?_, flatten_sseEvents _, ?_, ?_, fun s _ hmodel => ?_⟩
  · rw [forward_eq, forward_eq, List.flatten_singleton]
  · have hplain : eventText (⟨o.json, none, false⟩ : Forwarding ν) = Segment.text := by
      funext s
      simp [eventText, canonicalizeSseEvent_none, Segment.text]
    rw [written_forward, hplain, flatten_sseEvents]
  · rw [written_forward, flatten_eventText]
  · cases hcanonical : o.canonicalModel with
    | none => rfl
    | some model => exact canonicalizeSseEvent_of_not (hmodel model hcanonical)

end GhcpConsole.Streams
