import GhcpConsole.Lib.Json
import GhcpConsole.Lib.TextDecoder
import GhcpConsole.Streams.Sse

/-!
# Whether a stream has completed

`StreamCompletion`: the proxy decides from the events of a stream whether the request succeeded. The
decision is the same however the stream is cut into chunks, and what it says of a whole stream is
`stream_success`.
-/

namespace GhcpConsole.Streams

variable {ν : Type} [JsNumber ν]

structure StreamCompletion where
  path : String
  buffer : List Char := []
  decoder : TextDecoder := {}
  failed : Bool := false
  terminal : Bool := false
  /-- The texts that `event` has been called with. -/
  events : List (List Char) := []
deriving DecidableEq

/-- The most that the buffer keeps, in UTF-16 units. -/
def bufferLimit : Nat := 4 * 1024 * 1024

/-- The value of the first `event:` line. -/
def eventName (text : List Char) : Option (List Char) :=
  ((splitLines text).find? ("event:".toList.isPrefixOf ·)).map fun line => trim (line.drop 6)

def eventData (text : List Char) : List Char :=
  joinLines (((splitLines text).filter ("data:".toList.isPrefixOf ·)).map
    fun line => trimStart (line.drop 5))

def isTruthy (value : Option (Json ν)) : Bool := value.any Json.truthy

/-- `value.type ?? name`. -/
def messageType (members : OrderedMap String (Json ν)) (name : Option (List Char)) :
    Option (Json ν) :=
  match members.get "type" with
  | none | some .null => name.map fun name => .str (String.ofList name)
  | some type => some type

/-- `String(type)`. -/
def typeText (type : Option (Json ν)) : Option String :=
  match type with
  | none => some "undefined"
  | some type => type.toText

def isType (type : Option (Json ν)) (expected : String) : Bool :=
  type.bind Json.string? = some expected

def failureTypes : List String :=
  ["error", "response.failed", "response.incomplete", "response.cancelled"]

/-- `response?.status && response.status !== 'completed' || response?.error`. -/
def isFailedResponse (response : Option (Json ν)) : Bool :=
  let status := Json.field "status" response
  isTruthy status && status.bind Json.string? ≠ some "completed"
    || isTruthy (Json.field "error" response)

namespace StreamCompletion

/-- The data of an event is an object. -/
def message (c : StreamCompletion) (name : Option (List Char))
    (members : OrderedMap String (Json ν)) : StreamCompletion :=
  let type := messageType members name
  let error :=
    if isTruthy (members.get "error") then some true
    else (typeText type).map (failureTypes.contains ·)
  match error with
  | none => { c with failed := true }
  | some error =>
      let c := if error then { c with failed := true } else c
      let c :=
        if c.path = "/v1/messages" ∧ isType type "message_stop" then { c with terminal := true }
        else c
      if c.path = "/responses" ∧ isType type "response.completed" then
        if isFailedResponse (members.get "response") then { c with failed := true }
        else { c with terminal := true }
      else c

def event (json : JsonText ν) (c : StreamCompletion) (text : List Char) : StreamCompletion :=
  let c := { c with events := c.events ++ [text] }
  let name := eventName text
  let c := if name = some "error".toList then { c with failed := true } else c
  let data := eventData text
  if data = [] then c
  else if trim data = "[DONE]".toList then
    if c.path = "/chat/completions" then { c with terminal := true } else c
  else
    match json.parse data with
    | some (.obj members) => c.message name members
    | _ => { c with failed := true }

def drain (json : JsonText ν) (c : StreamCompletion) : StreamCompletion :=
  let (c, buffer) := blankLines.drain (fun c s => c.event json s.body) c c.buffer
  { c with buffer }

/-- A buffer over the limit is given up. -/
def limited (c : StreamCompletion) : StreamCompletion :=
  if bufferLimit < utf16Length c.buffer then { c with failed := true, buffer := [] } else c

def add (json : JsonText ν) (c : StreamCompletion) (chunk : List UInt8) : StreamCompletion :=
  let (text, decoder) := c.decoder.decode chunk
  ({ c with buffer := c.buffer ++ text, decoder }.drain json).limited

def finish (json : JsonText ν) (c : StreamCompletion) : Bool :=
  let c := { c with buffer := c.buffer ++ c.decoder.flush }.drain json
  let failed := c.failed || trim c.buffer ≠ []
  c.terminal && !failed

/-- A stream that is read in chunks. -/
def completes (json : JsonText ν) (path : String) (chunks : List (List UInt8)) : Bool :=
  (chunks.foldl (add json) { path }).finish json

end StreamCompletion

/-! ## What an event says -/

inductive Reading (ν : Type)
  | silent
  | done
  | malformed
  | message (members : OrderedMap String (Json ν))

def reading (json : JsonText ν) (text : List Char) : Reading ν :=
  if eventData text = [] then .silent
  else if trim (eventData text) = "[DONE]".toList then .done
  else
    match json.parse (eventData text) with
    | some (.obj members) => .message members
    | _ => .malformed

def messageRejects (path : String) (name : Option (List Char))
    (members : OrderedMap String (Json ν)) : Bool :=
  let type := messageType members name
  isTruthy (members.get "error") || (typeText type).all (failureTypes.contains ·)
    || (path = "/responses" && isType type "response.completed"
      && isFailedResponse (members.get "response"))

def messageEnds (path : String) (name : Option (List Char))
    (members : OrderedMap String (Json ν)) : Bool :=
  let type := messageType members name
  (path = "/v1/messages" && isType type "message_stop")
    || (path = "/responses" && isType type "response.completed"
      && !isFailedResponse (members.get "response"))

/-- An error, no JSON object, or a response that has not completed. -/
def rejects (json : JsonText ν) (path : String) (text : List Char) : Bool :=
  eventName text = some "error".toList ||
    match reading json text with
    | .silent | .done => false
    | .malformed => true
    | .message members => messageRejects path (eventName text) members

/-- The terminal event of the path. -/
def ends (json : JsonText ν) (path : String) (text : List Char) : Bool :=
  match reading json text with
  | .silent | .malformed => false
  | .done => path = "/chat/completions"
  | .message members => messageEnds path (eventName text) members

theorem typeText_of_isType {type : Option (Json ν)} {expected : String}
    (h : isType type expected = true) : typeText type = some expected := by
  obtain ⟨value, rfl, hvalue⟩ := Option.bind_eq_some_iff.mp (of_decide_eq_true h)
  rw [Json.string?_eq_some.mp hvalue]
  rfl

/-- A type that has no text is none of the types that are looked for. -/
theorem isType_eq_false {type : Option (Json ν)} (h : typeText type = none) (expected : String) :
    isType type expected = false := by
  cases htype : isType type expected with
  | false => rfl
  | true =>
      rw [typeText_of_isType htype] at h
      cases h

namespace StreamCompletion

variable {json : JsonText ν} {c : StreamCompletion} {text : List Char}

omit [JsNumber ν] in
theorem failed_if (c : StreamCompletion) (b : Bool) :
    (if b = true then { c with failed := true } else c) = { c with failed := c.failed || b } := by
  cases b <;> simp

theorem message_eq (c : StreamCompletion) (name : Option (List Char))
    (members : OrderedMap String (Json ν)) : c.message name members = { c with
      failed := c.failed || messageRejects c.path name members
      terminal := c.terminal || messageEnds c.path name members } := by
  unfold message messageRejects messageEnds
  cases htext : typeText (messageType members name) with
  | none =>
      have hnot := isType_eq_false htext
      by_cases herror : isTruthy (members.get "error") = true <;> simp [hnot, htext, herror]
  | some type =>
      have hknown : (if isTruthy (members.get "error") then some true
          else (some type).map (failureTypes.contains ·))
          = some (isTruthy (members.get "error") || failureTypes.contains type) := by
        cases isTruthy (members.get "error") <;> rfl
      simp only [htext, hknown, failed_if, Option.all_some]
      by_cases hmessage : c.path = "/v1/messages" ∧ isType (messageType members name) "message_stop"
      · simp [hmessage]
      · have hnot : (decide (c.path = "/v1/messages")
            && isType (messageType members name) "message_stop") = false := by simpa using hmessage
        by_cases hresponse : c.path = "/responses"
            ∧ isType (messageType members name) "response.completed"
        · cases hfailed : isFailedResponse (members.get "response") <;> simp [hresponse]
        · have hnot' : (decide (c.path = "/responses")
              && isType (messageType members name) "response.completed") = false := by
            simpa using hresponse
          simp [hmessage, hresponse, hnot, hnot']

theorem event_eq (json : JsonText ν) (c : StreamCompletion) (text : List Char) :
    c.event json text = { c with
      failed := c.failed || rejects json c.path text
      terminal := c.terminal || ends json c.path text
      events := c.events ++ [text] } := by
  unfold event rejects ends reading
  by_cases hname : eventName text = some "error".toList <;>
    simp only [hname, decide_true, decide_false, Bool.true_or, Bool.false_or, Bool.or_true, if_true,
      if_false] <;>
  · by_cases hsilent : eventData text = []
    · simp [hsilent]
    · by_cases hdone : trim (eventData text) = "[DONE]".toList
      · by_cases hpath : c.path = "/chat/completions" <;> simp [hsilent, hdone, hpath]
      · simp only [if_neg hsilent, if_neg hdone]
        cases hparse : json.parse (eventData text) with
        | none => simp
        | some value =>
            cases value with
            | obj members => exact (message_eq _ _ _).trans (by simp)
            | _ => simp

theorem foldl_event (json : JsonText ν) (c : StreamCompletion) (l : List (Segment Char)) :
    l.foldl (fun c s => c.event json s.body) c = { c with
      failed := c.failed || l.any (rejects json c.path ·.body)
      terminal := c.terminal || l.any (ends json c.path ·.body)
      events := c.events ++ l.map (·.body) } := by
  induction l generalizing c with
  | nil => simp
  | cons s l ih =>
      rw [List.foldl_cons, ih, event_eq]
      simp [Bool.or_assoc]

/-- The events that are complete are examined; the rest stays in the buffer. -/
theorem drain_eq (json : JsonText ν) (c : StreamCompletion) : c.drain json = { c with
    buffer := blankLines.remainder c.buffer
    failed := c.failed || (blankLines.segments c.buffer).any (rejects json c.path ·.body)
    terminal := c.terminal || (blankLines.segments c.buffer).any (ends json c.path ·.body)
    events := c.events ++ (blankLines.segments c.buffer).map (·.body) } := by
  rw [drain, Splitter.drain_eq_foldl, foldl_event]

end StreamCompletion

/-! ## Streams in chunks -/

/-- What a completion has come to when all of a text has been examined. -/
def examined (json : JsonText ν) (path : String) (text : List Char) (decoder : TextDecoder) :
    StreamCompletion where
  path
  buffer := blankLines.remainder text
  decoder
  failed := (blankLines.segments text).any (rejects json path ·.body)
  terminal := (blankLines.segments text).any (ends json path ·.body)
  events := (blankLines.segments text).map (·.body)

/-- At some time more of one event had come than the buffer keeps. -/
def Overflowed (text : List Char) : Prop :=
  ∃ u v, text = u ++ v ∧ bufferLimit < utf16Length (blankLines.remainder u)

section Run

variable {json : JsonText ν} {path : String} {text more : List Char} {d : TextDecoder}
  {c : StreamCompletion}

theorem drain_examined (json : JsonText ν) (path : String) (text more : List Char)
    (d d' : TextDecoder) :
    StreamCompletion.drain json { examined json path text d with
      buffer := (examined json path text d).buffer ++ more, decoder := d' }
      = examined json path (text ++ more) d' := by
  rw [StreamCompletion.drain_eq]
  simp only [examined, Splitter.segments_append text, Splitter.remainder_append text, List.any_append,
    List.map_append]

theorem Overflowed.append (h : Overflowed text) (more : List Char) : Overflowed (text ++ more) := by
  obtain ⟨u, v, rfl, hlimit⟩ := h
  exact ⟨u, v ++ more, List.append_assoc .., hlimit⟩

/-- Either everything that came was examined, or the completion has failed for good. -/
def Follows (json : JsonText ν) (path : String) (bytes : List UInt8) (c : StreamCompletion) : Prop :=
  (c = examined json path (({} : TextDecoder).decode bytes).1 (({} : TextDecoder).decode bytes).2
      ∧ utf16Length (blankLines.remainder (({} : TextDecoder).decode bytes).1) ≤ bufferLimit)
    ∨ (c.failed = true ∧ Overflowed (({} : TextDecoder).decode bytes).1)

theorem add_failed (h : c.failed = true) (chunk : List UInt8) : (c.add json chunk).failed = true := by
  unfold StreamCompletion.add StreamCompletion.limited
  simp only [StreamCompletion.drain_eq, h, Bool.true_or]
  split <;> rfl

theorem add_examined (json : JsonText ν) (path : String) (text : List Char) (d : TextDecoder)
    (chunk : List UInt8) : (examined json path text d).add json chunk
      = (examined json path (text ++ (d.decode chunk).1) (d.decode chunk).2).limited :=
  congrArg StreamCompletion.limited (drain_examined json path text _ d _)

theorem Follows.add {bytes : List UInt8} (h : Follows json path bytes c) (chunk : List UInt8) :
    Follows json path (bytes ++ chunk) (c.add json chunk) := by
  unfold Follows at h ⊢
  rw [TextDecoder.decode_append]
  rcases h with ⟨rfl, -⟩ | ⟨hfailed, hover⟩
  · rw [add_examined]
    generalize (({} : TextDecoder).decode bytes).1 ++ _ = text
    generalize ((({} : TextDecoder).decode bytes).2.decode chunk).2 = d
    by_cases hlimit : bufferLimit < utf16Length (blankLines.remainder text)
    · refine .inr ⟨?_, text, [], (List.append_nil _).symm, hlimit⟩
      exact congrArg StreamCompletion.failed (if_pos hlimit)
    · exact .inl ⟨if_neg hlimit, Nat.not_lt.mp hlimit⟩
  · exact .inr ⟨add_failed hfailed chunk, hover.append _⟩

theorem follows_chunks (json : JsonText ν) (path : String) (chunks : List (List UInt8)) :
    Follows json path chunks.flatten (chunks.foldl (StreamCompletion.add json) { path }) := by
  induction chunks using List.reverseRecOn with
  | nil => exact .inl ⟨rfl, Nat.zero_le _⟩
  | append_singleton chunks chunk ih =>
      rw [List.foldl_append, List.foldl_cons, List.foldl_nil, List.flatten_append,
        List.flatten_singleton]
      exact ih.add chunk

theorem finish_failed (h : c.failed = true) : c.finish json = false := by
  unfold StreamCompletion.finish
  simp [StreamCompletion.drain_eq, h]

theorem finish_examined (json : JsonText ν) (path : String) (text : List Char) (d : TextDecoder) :
    (examined json path text d).finish json
      = ((examined json path (text ++ d.flush) d).terminal
        && !((examined json path (text ++ d.flush) d).failed
          || trim (blankLines.remainder (text ++ d.flush)) ≠ [])) := by
  have hdrained := drain_examined json path text d.flush d d
  unfold StreamCompletion.finish
  exact congrArg (fun c => c.terminal && !(c.failed || trim c.buffer ≠ [])) hdrained

/-- A blank rest holds no replacement for a broken sequence. -/
theorem flush_eq_nil (h : trim (blankLines.remainder (text ++ d.flush)) = []) : d.flush = [] := by
  rcases d.flush_cases with hnil | hbroken
  · exact hnil
  · exfalso
    rw [hbroken] at h
    cases hrest : blankLines.remainder (text ++ [TextDecoder.replacement]) with
    | nil =>
        obtain ⟨s, hs, hmem⟩ := Splitter.mem_of_concat hrest
        have hdelimiter : s.delimiter ∈ blankLineTexts := delimiter_mem blankLineTexts_delimiting s hs
        have hnone : ∀ w ∈ blankLineTexts, TextDecoder.replacement ∉ w := by decide
        exact hnone _ hdelimiter hmem
    | cons a rest =>
        have hlast := congrArg List.getLast? (blankLines.flatten_segments (text ++ [TextDecoder.replacement]))
        rw [hrest, List.getLast?_append_of_ne_nil _ (List.cons_ne_nil _ _), List.getLast?_concat,
          ← hrest] at hlast
        exact absurd (trim_eq_nil.mp h _ (List.mem_of_getLast? hlast)) (by decide)

end Run

/-- No event, with the blank line that ends it, is longer than the buffer. -/
def WithinLimit (text : List Char) : Prop :=
  ∀ s ∈ blankLines.segments text, utf16Length s.text ≤ bufferLimit

/-- A stream has completed: nothing but white space follows its last event, the terminal event of
the path is among the events, and none is rejected. -/
structure Completed (json : JsonText ν) (path : String) (text : List Char) : Prop where
  blank : ∀ c ∈ blankLines.remainder text, isTrimmed c = true
  short : utf16Length (blankLines.remainder text) ≤ bufferLimit
  ended : ∃ s ∈ blankLines.segments text, ends json path s.body = true
  accepted : ∀ s ∈ blankLines.segments text, rejects json path s.body = false

theorem completes_iff (json : JsonText ν) (path : String) (chunks : List (List UInt8))
    (hlimit : WithinLimit (TextDecoder.text chunks.flatten)) :
    StreamCompletion.completes json path chunks = true
      ↔ Completed json path (TextDecoder.text chunks.flatten) := by
  rcases follows_chunks json path chunks with ⟨hexamined, hshort⟩ | ⟨hfailed, u, v, huv, hover⟩
  · rw [StreamCompletion.completes, hexamined, finish_examined]
    simp only [Bool.and_eq_true, Bool.not_eq_true', Bool.or_eq_false_iff, decide_eq_false_iff_not,
      ne_eq, Decidable.not_not, examined, List.any_eq_true, List.any_eq_false]
    constructor
    · rintro ⟨hended, haccepted, hblank⟩
      refine ⟨trim_eq_nil.mp hblank, ?_, hended, fun s hs => by simpa using haccepted s hs⟩
      rw [TextDecoder.text, flush_eq_nil hblank, List.append_nil]
      exact hshort
    · intro h
      exact ⟨h.ended, fun s hs => by simpa using h.accepted s hs, trim_eq_nil.mpr h.blank⟩
  · rw [StreamCompletion.completes, finish_failed hfailed]
    refine ⟨(fun h => by cases h), fun h => ?_⟩
    -- the event that was too long is one of the stream, or what is left of it
    have htext : TextDecoder.text chunks.flatten = u ++ (v ++ (({} : TextDecoder).decode
        chunks.flatten).2.flush) := by
      rw [TextDecoder.text, huv, List.append_assoc]
    rw [htext] at h hlimit
    rcases Splitter.remainder_prefix u _ with ⟨s, hs, hprefix⟩ | hprefix
    · have hle := hlimit s hs
      have := utf16Length_le_of_prefix hprefix
      omega
    · have hle := h.short
      have := utf16Length_le_of_prefix hprefix
      omega

/-- Whether a stream has completed does not depend on how it was cut into chunks. -/
theorem stream_success (json : JsonText ν) (path : String) (chunks : List (List UInt8))
    (hlimit : WithinLimit (TextDecoder.text chunks.flatten)) :
    StreamCompletion.completes json path chunks
        = StreamCompletion.completes json path [chunks.flatten]
      ∧ (StreamCompletion.completes json path chunks = true
        ↔ Completed json path (TextDecoder.text chunks.flatten)) := by
  have hchunks := completes_iff json path chunks hlimit
  have honce := completes_iff json path [chunks.flatten] (by
    rw [List.flatten_singleton]
    exact hlimit)
  rw [List.flatten_singleton] at honce
  refine ⟨?_, hchunks⟩
  rw [Bool.eq_iff_iff, hchunks, honce]

/-! ## Streams -/

def asciiBytes (text : String) : List UInt8 := text.toList.map fun c => c.toNat.toUInt8

def queuedText : String := "\x7b\"type\":\"response.completed\",\"response\":\x7b\"status\":\"queued\"\x7d\x7d"

def completedText : String := "\x7b\"type\":\"response.completed\"\x7d"

/-- The texts that the streams below hold. -/
def knownJson : JsonText Int where
  parse text :=
    if text = "5".toList then some (.num 5)
    else if text = queuedText.toList then
      some (.obj [("type", .str "response.completed"), ("response", .obj [("status", .str "queued")])])
    else if text = completedText.toList then some (.obj [("type", .str "response.completed")])
    else none
  stringify _ := "5".toList

/-- The blank line is cut in the middle. -/
theorem stream_success_done :
    WithinLimit (TextDecoder.text [asciiBytes "data: [DONE]\n", asciiBytes "\n"].flatten)
      ∧ StreamCompletion.completes knownJson "/chat/completions"
        [asciiBytes "data: [DONE]\n", asciiBytes "\n"] = true := by
  have hlimit : WithinLimit (TextDecoder.text
      [asciiBytes "data: [DONE]\n", asciiBytes "\n"].flatten) := by
    unfold WithinLimit
    decide +kernel
  refine ⟨hlimit, (stream_success knownJson "/chat/completions" _ hlimit).2.mpr ?_⟩
  exact ⟨by decide +kernel, by decide +kernel, by decide +kernel, by decide +kernel⟩

/-- Malformed JSON, an error, or a failed, incomplete or cancelled response, and nothing else. -/
def Unsuccessful (json : JsonText ν) (text : List Char) : Prop :=
  eventName text = some "error".toList
    ∨ (reading json text = .malformed ∧ json.parse (eventData text) = none)
    ∨ ∃ members, reading json text = .message members
        ∧ (isTruthy (members.get "error") = true
          ∨ (typeText (messageType members (eventName text))).any (failureTypes.contains ·) = true
          ∨ ∃ status ∈ ["failed", "incomplete", "cancelled"],
              isType (Json.field "status" (members.get "response")) status = true)

/-- The answer if only what is `Unsuccessful` failed a stream. -/
def AnswersAsStated (json : JsonText ν) (path : String) (chunks : List (List UInt8)) : Prop :=
  WithinLimit (TextDecoder.text chunks.flatten) →
    (StreamCompletion.completes json path chunks = true ↔
      (∀ c ∈ blankLines.remainder (TextDecoder.text chunks.flatten), isTrimmed c = true)
      ∧ (∃ s ∈ blankLines.segments (TextDecoder.text chunks.flatten), ends json path s.body = true)
      ∧ ∀ s ∈ blankLines.segments (TextDecoder.text chunks.flatten), ¬Unsuccessful json s.body)

section Spaces

/-- A stream that has ended, and then nothing but spaces. -/
def doneThenSpaces (n : Nat) : List UInt8 := asciiBytes "data: [DONE]\n\n" ++ List.replicate n 32

variable {n : Nat}

theorem decode_spaces : ({ bomSeen := true } : TextDecoder).decode (List.replicate n 32)
    = (List.replicate n ' ', { bomSeen := true }) := by
  induction n with
  | zero => rfl
  | succ n ih =>
      rw [List.replicate_succ, List.replicate_succ]
      exact congrArg (fun p : List Char × TextDecoder => (' ' :: p.1, p.2)) ih

/-- The stream before the spaces. -/
theorem done_stream :
    ({} : TextDecoder).decode (asciiBytes "data: [DONE]\n\n") = ("data: [DONE]\n\n".toList, { bomSeen := true })
      ∧ blankLines.segments "data: [DONE]\n\n".toList = [⟨"data: [DONE]".toList, "\n\n".toList⟩]
      ∧ blankLines.remainder "data: [DONE]\n\n".toList = [] := by
  decide +kernel

theorem text_doneThenSpaces :
    TextDecoder.text (doneThenSpaces n) = "data: [DONE]\n\n".toList ++ List.replicate n ' ' := by
  rw [TextDecoder.text, doneThenSpaces, TextDecoder.decode_append, done_stream.1, decode_spaces]
  exact List.append_nil _

theorem next_spaces : blankLines.next (List.replicate n ' ') = none := by
  induction n with
  | zero => rfl
  | succ n ih =>
      have hnone : wordAt blankLineTexts (' ' :: List.replicate n ' ') = none := by
        simp [wordAt, blankLineTexts]
      show nextWord blankLineTexts (' ' :: List.replicate n ' ') = none
      rw [nextWord_cons_of_none hnone]
      exact congrArg (Option.map _) ih

theorem segments_doneThenSpaces : blankLines.segments (TextDecoder.text (doneThenSpaces n))
    = [⟨"data: [DONE]".toList, "\n\n".toList⟩] := by
  obtain ⟨-, hdone, hrest⟩ := done_stream
  rw [text_doneThenSpaces, Splitter.segments_append, hdone, hrest, List.nil_append,
    Splitter.segments_of_none next_spaces]
  rfl

theorem remainder_doneThenSpaces : blankLines.remainder (TextDecoder.text (doneThenSpaces n))
    = List.replicate n ' ' := by
  rw [text_doneThenSpaces, Splitter.remainder_append, done_stream.2.2, List.nil_append,
    Splitter.remainder_of_none next_spaces]

theorem utf16Length_spaces : utf16Length (List.replicate n ' ') = n := by
  rw [utf16Length, List.map_replicate]
  simp

end Spaces

theorem not_unsuccessful_done : ¬Unsuccessful knownJson "data: [DONE]".toList := by
  have hreading : reading knownJson "data: [DONE]".toList = .done := rfl
  rintro (hname | ⟨hmalformed, -⟩ | ⟨members, hmessage, -⟩)
  · exact absurd hname (by decide)
  · rw [hreading] at hmalformed
    cases hmalformed
  · rw [hreading] at hmessage
    cases hmessage

/-- Data that is JSON but no object. -/
theorem number_not_as_stated :
    ¬AnswersAsStated knownJson "/chat/completions" [asciiBytes "data: 5\n\ndata: [DONE]\n\n"] := by
  intro h
  have hsegments : (blankLines.segments (TextDecoder.text
      [asciiBytes "data: 5\n\ndata: [DONE]\n\n"].flatten)).map (·.body)
      = ["data: 5".toList, "data: [DONE]".toList] := by decide +kernel
  have hnumber : ¬Unsuccessful knownJson "data: 5".toList := by
    have hreading : reading knownJson "data: 5".toList = .malformed := rfl
    rintro (hname | ⟨-, hparse⟩ | ⟨members, hmessage, -⟩)
    · exact absurd hname (by decide)
    · exact absurd (congrArg Option.isNone hparse) (by decide)
    · rw [hreading] at hmessage
      cases hmessage
  refine absurd ((h (by unfold WithinLimit; decide +kernel)).mpr
    ⟨by decide +kernel, by decide +kernel, fun s hs => ?_⟩) (by decide +kernel)
  have hbody : s.body ∈ ["data: 5".toList, "data: [DONE]".toList] :=
    hsegments ▸ List.mem_map_of_mem hs
  rcases List.mem_cons.mp hbody with hbody | hbody
  · rw [hbody]
    exact hnumber
  · rw [List.mem_singleton.mp hbody]
    exact not_unsuccessful_done

def queuedStream : List UInt8 :=
  asciiBytes ("data: " ++ queuedText ++ "\n\ndata: " ++ completedText ++ "\n\n")

/-- A message without an error, whose type and whose response's status are fine. -/
theorem not_unsuccessful_message {json : JsonText ν} {text : List Char}
    {members : OrderedMap String (Json ν)} (hname : eventName text ≠ some "error".toList)
    (hreading : reading json text = .message members)
    (herror : isTruthy (members.get "error") = false)
    (htype : (typeText (messageType members (eventName text))).any (failureTypes.contains ·) = false)
    (hstatus : ∀ status ∈ ["failed", "incomplete", "cancelled"],
      isType (Json.field "status" (members.get "response")) status = false) :
    ¬Unsuccessful json text := by
  rintro (h | ⟨h, -⟩ | ⟨members', h, hfails⟩)
  · exact hname h
  · rw [hreading] at h
    cases h
  · rw [hreading] at h
    cases h
    rcases hfails with h | h | ⟨status, hmem, h⟩
    · rw [herror] at h
      cases h
    · rw [htype] at h
      cases h
    · rw [hstatus status hmem] at h
      cases h

/-- A completed response that says it is queued, before one that says nothing. -/
theorem queued_not_as_stated : ¬AnswersAsStated knownJson "/responses" [queuedStream] := by
  intro h
  obtain ⟨hsegments, hlimit, hblank, hended, hnames, hrun⟩ :
      (blankLines.segments (TextDecoder.text [queuedStream].flatten)).map (·.body)
          = [("data: " ++ queuedText).toList, ("data: " ++ completedText).toList]
        ∧ (∀ s ∈ blankLines.segments (TextDecoder.text [queuedStream].flatten), utf16Length s.text ≤ bufferLimit)
        ∧ (∀ c ∈ blankLines.remainder (TextDecoder.text [queuedStream].flatten), isTrimmed c = true)
        ∧ (∃ s ∈ blankLines.segments (TextDecoder.text [queuedStream].flatten),
          ends knownJson "/responses" s.body = true)
        ∧ (eventName ("data: " ++ queuedText).toList ≠ some "error".toList
          ∧ eventName ("data: " ++ completedText).toList ≠ some "error".toList)
        ∧ StreamCompletion.completes knownJson "/responses" [queuedStream] = false := by
    decide +kernel
  have hqueued : ¬Unsuccessful knownJson ("data: " ++ queuedText).toList :=
    not_unsuccessful_message hnames.1 rfl rfl (by decide) (by decide)
  have hcompleted : ¬Unsuccessful knownJson ("data: " ++ completedText).toList :=
    not_unsuccessful_message hnames.2 rfl rfl (by decide) (by decide)
  refine absurd ((h hlimit).mpr ⟨hblank, hended, fun s hs => ?_⟩) (by rw [hrun]; exact Bool.false_ne_true)
  have hbody : s.body ∈ [("data: " ++ queuedText).toList, ("data: " ++ completedText).toList] :=
    hsegments ▸ List.mem_map_of_mem hs
  rcases List.mem_cons.mp hbody with hbody | hbody
  · rw [hbody]
    exact hqueued
  · rw [List.mem_singleton.mp hbody]
    exact hcompleted

/-- More white space behind the last event than the buffer keeps. -/
theorem spaces_not_as_stated :
    ¬AnswersAsStated knownJson "/chat/completions" [doneThenSpaces (bufferLimit + 1)] := by
  intro h
  unfold AnswersAsStated at h
  have hlimit : WithinLimit (TextDecoder.text [doneThenSpaces (bufferLimit + 1)].flatten) := by
    rw [List.flatten_singleton, WithinLimit, segments_doneThenSpaces]
    decide
  have hcompletes := (h hlimit).mpr
  rw [completes_iff _ _ _ hlimit, List.flatten_singleton, segments_doneThenSpaces,
    remainder_doneThenSpaces] at hcompletes
  have hshort := (hcompletes ⟨fun c hc => ?_, ⟨_, List.mem_singleton_self _, rfl⟩, fun s hs => ?_⟩).short
  · rw [remainder_doneThenSpaces, utf16Length_spaces] at hshort
    omega
  · rw [List.eq_of_mem_replicate hc]
    decide
  · rw [List.mem_singleton.mp hs]
    exact not_unsuccessful_done

/-- Each of the three fails a stream that holds nothing `Unsuccessful`. -/
theorem stream_success_as_stated :
    ¬AnswersAsStated knownJson "/chat/completions" [asciiBytes "data: 5\n\ndata: [DONE]\n\n"]
      ∧ ¬AnswersAsStated knownJson "/responses" [queuedStream]
      ∧ ¬AnswersAsStated knownJson "/chat/completions" [doneThenSpaces (bufferLimit + 1)] :=
  ⟨number_not_as_stated, queued_not_as_stated, spaces_not_as_stated⟩

end GhcpConsole.Streams
