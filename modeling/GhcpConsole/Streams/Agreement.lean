import GhcpConsole.Streams.Completion
import GhcpConsole.Streams.Forwarding

/-!
# Two readings of one stream

The events that `forwardSseEvents` forwards are those that `StreamCompletion` examines exactly where
no blank line of the stream mixes the two line endings and no event is filtered (`one_segmentation`).
-/

namespace GhcpConsole.Streams

/-- The texts that `StreamCompletion.drain` hands to `event`. -/
def examinedTexts (text : List Char) : List (List Char) := (blankLines.segments text).map (·.body)

/-- The texts that `forwardSseEvents` takes for events. -/
def forwardedTexts (text : List Char) : List (List Char) :=
  (eventBoundaries.segments text).map (·.body)

/-- Read from the left, some blank line is a line feed behind a CRLF, or a CRLF behind a line feed. -/
def mixesLineEndings : List Char → Bool
  | [] => false
  | '\n' :: '\n' :: text => mixesLineEndings text
  | '\n' :: '\r' :: '\n' :: _ => true
  | '\r' :: '\n' :: '\n' :: _ => true
  | '\r' :: '\n' :: '\r' :: '\n' :: text => mixesLineEndings text
  | _ :: text => mixesLineEndings text

section Mixed

variable {text r : List Char} {s : Segment Char}

/-- A text that begins like no blank line. -/
theorem wordAt_blankLineTexts
    (hlf : ∀ rest, text = '\n' :: '\n' :: rest → False)
    (hlfcrlf : ∀ rest, text = '\n' :: '\r' :: '\n' :: rest → False)
    (hcrlflf : ∀ rest, text = '\r' :: '\n' :: '\n' :: rest → False)
    (hcrlf : ∀ rest, text = '\r' :: '\n' :: '\r' :: '\n' :: rest → False) :
    wordAt blankLineTexts text = none := by
  refine wordAt_eq_none.mpr fun w hw hprefix => ?_
  obtain ⟨rest, rfl⟩ := hprefix
  simp only [blankLineTexts, List.mem_cons, List.not_mem_nil, or_false] at hw
  rcases hw with rfl | rfl | rfl | rfl
  · exact hlf rest rfl
  · exact hlfcrlf rest rfl
  · exact hcrlflf rest rfl
  · exact hcrlf rest rfl

theorem mixesLineEndings_none (h : blankLines.next text = none) : mixesLineEndings text = false := by
  fun_induction mixesLineEndings text with
  | case1 => rfl
  | case2 text ih => cases h
  | case3 => cases h
  | case4 => cases h
  | case5 text ih => cases h
  | case6 c text h1 h2 h3 h4 ih =>
      have hnone : wordAt blankLineTexts (c :: text) = none := wordAt_blankLineTexts
        (fun rest hrest => h1 rest (List.cons.inj hrest).1 (List.cons.inj hrest).2)
        (fun rest hrest => h2 rest (List.cons.inj hrest).1 (List.cons.inj hrest).2)
        (fun rest hrest => h3 rest (List.cons.inj hrest).1 (List.cons.inj hrest).2)
        (fun rest hrest => h4 rest (List.cons.inj hrest).1 (List.cons.inj hrest).2)
      refine ih ?_
      have hnext : nextWord blankLineTexts (c :: text) = none := h
      rw [nextWord_cons_of_none hnone, Option.map_eq_none_iff] at hnext
      exact hnext

theorem mixesLineEndings_some (h : blankLines.next text = some (s, r)) :
    mixesLineEndings text = (s.delimiter ∉ boundaryTexts || mixesLineEndings r) := by
  fun_induction mixesLineEndings text generalizing s with
  | case1 => cases h
  | case2 text ih => 
      obtain ⟨rfl, rfl⟩ := Prod.mk.inj (Option.some.inj h)
      rfl
  | case3 =>
      obtain ⟨rfl, rfl⟩ := Prod.mk.inj (Option.some.inj h)
      rfl
  | case4 =>
      obtain ⟨rfl, rfl⟩ := Prod.mk.inj (Option.some.inj h)
      rfl
  | case5 text ih =>
      obtain ⟨rfl, rfl⟩ := Prod.mk.inj (Option.some.inj h)
      rfl
  | case6 c text h1 h2 h3 h4 ih =>
      have hnone : wordAt blankLineTexts (c :: text) = none := wordAt_blankLineTexts
        (fun rest hrest => h1 rest (List.cons.inj hrest).1 (List.cons.inj hrest).2)
        (fun rest hrest => h2 rest (List.cons.inj hrest).1 (List.cons.inj hrest).2)
        (fun rest hrest => h3 rest (List.cons.inj hrest).1 (List.cons.inj hrest).2)
        (fun rest hrest => h4 rest (List.cons.inj hrest).1 (List.cons.inj hrest).2)
      have hnext : nextWord blankLineTexts (c :: text) = some (s, r) := h
      rw [nextWord_cons_of_none hnone, Option.map_eq_some_iff] at hnext
      obtain ⟨⟨s', r'⟩, hnext, heq⟩ := hnext
      obtain ⟨rfl, rfl⟩ := Prod.mk.inj heq
      have hrest := ih hnext
      exact hrest

theorem boundaryTexts_subset : boundaryTexts ⊆ blankLineTexts := by decide

theorem next_boundary_of_none (h : blankLines.next text = none) : eventBoundaries.next text = none :=
  (nextSseEventBoundary_eq text).trans (nextWord_eq_none_of_subset boundaryTexts_subset h)

theorem next_boundary_of_same (h : blankLines.next text = some (s, r))
    (hsame : s.delimiter ∈ boundaryTexts) : eventBoundaries.next text = some (s, r) :=
  (nextSseEventBoundary_eq text).trans
    (nextWord_of_subset boundaryTexts_delimiting boundaryTexts_subset h hsame)

/-- Behind a mixed blank line the forwarded event goes on. -/
theorem body_ne_of_mixed {s' : Segment Char} {r' : List Char}
    (h : blankLines.next text = some (s, r)) (hmixed : s.delimiter ∉ boundaryTexts)
    (h' : eventBoundaries.next text = some (s', r')) : s'.body ≠ s.body := by
  intro hbody
  have h'' : nextWord boundaryTexts text = some (s', r') := (nextSseEventBoundary_eq text) ▸ h'
  have hdelimiter := delimiter_eq_of_body blankLineTexts_delimiting boundaryTexts_subset h h'' hbody
  exact hmixed (hdelimiter ▸ (nextWord_split h'').2)

end Mixed

/-- Both readings find the same events exactly where no blank line mixes the line endings. -/
theorem forwardedTexts_eq_iff (text : List Char) :
    forwardedTexts text = examinedTexts text ↔ mixesLineEndings text = false := by
  unfold forwardedTexts examinedTexts
  induction text using blankLines.drain_induction with
  | rest text h =>
      rw [Splitter.segments_of_none h, Splitter.segments_of_none (next_boundary_of_none h),
        mixesLineEndings_none h]
      exact iff_of_true rfl rfl
  | segment text s r h ih =>
      rw [Splitter.segments_of_some h, mixesLineEndings_some h]
      by_cases hsame : s.delimiter ∈ boundaryTexts
      · rw [Splitter.segments_of_some (next_boundary_of_same h hsame), List.map_cons, List.map_cons,
          List.cons.injEq, ih]
        simp [hsame]
      · refine iff_of_false (fun heq => ?_) (by simp [hsame])
        cases hnext : eventBoundaries.next text with
        | none =>
            rw [Splitter.segments_of_none hnext] at heq
            cases heq
        | some found =>
            obtain ⟨s', r'⟩ := found
            rw [Splitter.segments_of_some hnext] at heq
            exact body_ne_of_mixed h hsame hnext (List.cons.inj heq).1

/-- Nothing is forwarded that holds more events than are examined. -/
theorem length_forwardedTexts_le (text : List Char) :
    (forwardedTexts text).length ≤ (examinedTexts text).length := by
  rw [forwardedTexts, examinedTexts, List.length_map, List.length_map, eventBoundaries_eq]
  exact length_segments_le boundaryTexts_delimiting blankLineTexts_delimiting boundaryTexts_subset [] text

/-! ## The two readers -/

section Readers

variable {ν : Type} [JsNumber ν]

/-- The event is written to the client. -/
def isForwarded (o : Forwarding ν) (text : List Char) : Bool := !o.filterDone || !isCopilotDoneEvent text

theorem events_forwardEvent (o : Forwarding ν) (out : Forwarded ν) (s : Segment Char) :
    (o.forwardEvent out s).events = out.events ++ [s.body].filter (isForwarded o) := by
  have hunfolded : isForwarded o s.body = (!o.filterDone || !isCopilotDoneEvent s.body) := rfl
  rw [Forwarding.forwardEvent, List.filter_singleton, ← hunfolded]
  cases isForwarded o s.body with
  | true => rfl
  | false => exact (List.append_nil _).symm

theorem events_forwardSseEvents (o : Forwarding ν) (out : Forwarded ν) (text : List Char) :
    (o.forwardSseEvents out text).1.events
      = out.events ++ (forwardedTexts text).filter (isForwarded o) := by
  rw [Forwarding.forwardSseEvents, Splitter.drain_eq_foldl, forwardedTexts]
  generalize eventBoundaries.segments text = events
  show (events.foldl o.forwardEvent out).events = _
  induction events generalizing out with
  | nil => exact (List.append_nil _).symm
  | cons s events ih =>
      rw [List.foldl_cons, ih, events_forwardEvent, List.append_assoc, ← List.filter_append]
      rfl

/-- Some event of the text is dropped as a done event. -/
def dropsEvent (o : Forwarding ν) (text : List Char) : Bool :=
  o.filterDone && (forwardedTexts text).any isCopilotDoneEvent

omit [JsNumber ν] in
theorem dropsEvent_eq_false {o : Forwarding ν} {text : List Char} : dropsEvent o text = false
    ↔ ∀ event ∈ forwardedTexts text, isForwarded o event = true := by
  rw [dropsEvent]
  cases hfilter : o.filterDone <;> simp [isForwarded, hfilter]

/-- `forwardSseEvents` forwards the events that `StreamCompletion` examines exactly where no blank line
mixes the line endings and no event is dropped. -/
theorem one_segmentation (o : Forwarding ν) (path : String) (text : List Char) :
    (o.forwardSseEvents {} text).1.events
        = (StreamCompletion.drain o.json { path, buffer := text }).events
      ↔ mixesLineEndings text = false ∧ dropsEvent o text = false := by
  rw [events_forwardSseEvents, StreamCompletion.drain_eq, dropsEvent_eq_false]
  show (forwardedTexts text).filter (isForwarded o) = examinedTexts text ↔ _
  constructor
  · intro hsame
    -- As many are examined as are found to be forwarded, so none is dropped.
    have hall : (forwardedTexts text).filter (isForwarded o) = forwardedTexts text := by
      refine List.Sublist.eq_of_length_le List.filter_sublist ?_
      rw [hsame]
      exact length_forwardedTexts_le text
    exact ⟨(forwardedTexts_eq_iff text).mp (hall.symm.trans hsame), List.filter_eq_self.mp hall⟩
  · rintro ⟨hmixes, hkept⟩
    rw [List.filter_eq_self.mpr hkept]
    exact (forwardedTexts_eq_iff text).mpr hmixes

end Readers

/-- A forwarding that changes nothing and filters nothing. -/
def plainForwarding : Forwarding Int where
  json := knownJson
  canonicalModel := none
  filterDone := false

/-- A line feed and a CRLF end an event for `StreamCompletion` only. -/
theorem one_segmentation_mixed : ¬∀ (o : Forwarding Int) (path : String) (text : List Char),
    (o.forwardSseEvents {} text).1.events
      = (StreamCompletion.drain o.json { path, buffer := text }).events := by
  intro h
  exact absurd (h plainForwarding "/responses" "data: x\n\r\ndata: y\n\n".toList) (by decide +kernel)

end GhcpConsole.Streams
