import GhcpConsole.Lib.JsText
import GhcpConsole.Lib.Segments

/-!
# Where an event of a stream ends

The proxy reads every event stream twice. `StreamCompletion` ends an event at whatever
`/\r?\n\r?\n/` matches, `nextSseEventBoundary` at one of two spellings of a blank line. Both are
splitters, so that what they find does not depend on how the stream arrives.
-/

namespace GhcpConsole.Streams

/-! ## Blank lines of every spelling -/

/-- What `/\r?\n\r?\n/` matches. -/
def blankLineTexts : List (List Char) :=
  [['\n', '\n'], ['\n', '\r', '\n'], ['\r', '\n', '\n'], ['\r', '\n', '\r', '\n']]

theorem blankLineTexts_delimiting : Delimiting blankLineTexts where
  ne_nil := by decide
  prefixFree := by decide
  inside := by decide

/-- `/\r?\n\r?\n/.exec(buffer)` with what is before the match and what is behind it. -/
def blankLines : Splitter Char := blankLineTexts_delimiting.splitter

/-! ## Two spellings -/

/-- `buffer.indexOf(pattern)`. -/
def indexOf (pattern : List Char) : List Char → Option Nat
  | [] => if pattern = [] then some 0 else none
  | c :: text =>
      if pattern.isPrefixOf (c :: text) then some 0 else (indexOf pattern text).map (· + 1)

structure SseEventBoundary where
  eventEnd : Nat
  nextEventStart : Nat
deriving DecidableEq

def nextSseEventBoundary (buffer : List Char) : Option SseEventBoundary :=
  match indexOf ['\n', '\n'] buffer, indexOf ['\r', '\n', '\r', '\n'] buffer with
  | none, none => none
  | some lf, none => some { eventEnd := lf, nextEventStart := lf + 2 }
  | none, some crlf => some { eventEnd := crlf, nextEventStart := crlf + 4 }
  | some lf, some crlf =>
      if crlf < lf then some { eventEnd := crlf, nextEventStart := crlf + 4 }
      else some { eventEnd := lf, nextEventStart := lf + 2 }

/-- The buffer cut at the boundary. -/
def cutAt (buffer : List Char) (boundary : SseEventBoundary) : Segment Char × List Char :=
  (⟨buffer.take boundary.eventEnd,
    (buffer.take boundary.nextEventStart).drop boundary.eventEnd⟩,
   buffer.drop boundary.nextEventStart)

def boundaryTexts : List (List Char) := [['\n', '\n'], ['\r', '\n', '\r', '\n']]

theorem boundaryTexts_delimiting : Delimiting boundaryTexts where
  ne_nil := by decide
  prefixFree := by decide
  inside := by decide

section Boundary

variable {c : Char} {text : List Char}

theorem indexOf_cons_of_start {pattern : List Char} (h : pattern.isPrefixOf (c :: text) = true) :
    indexOf pattern (c :: text) = some 0 := by
  rw [indexOf, if_pos h]

theorem indexOf_cons_of_not {pattern : List Char} (h : ¬pattern.isPrefixOf (c :: text) = true) :
    indexOf pattern (c :: text) = (indexOf pattern text).map (· + 1) := by
  rw [indexOf, if_neg h]

/-- Behind a letter that starts no boundary, the boundary of what follows is one further on. -/
theorem nextSseEventBoundary_shift (hlf : ¬['\n', '\n'].isPrefixOf (c :: text) = true)
    (hcrlf : ¬['\r', '\n', '\r', '\n'].isPrefixOf (c :: text) = true) :
    nextSseEventBoundary (c :: text)
      = (nextSseEventBoundary text).map fun b => ⟨b.eventEnd + 1, b.nextEventStart + 1⟩ := by
  unfold nextSseEventBoundary
  rw [indexOf_cons_of_not hlf, indexOf_cons_of_not hcrlf]
  cases indexOf ['\n', '\n'] text with
  | none => cases indexOf ['\r', '\n', '\r', '\n'] text <;> rfl
  | some lf =>
      cases indexOf ['\r', '\n', '\r', '\n'] text with
      | none => rfl
      | some crlf =>
          show (if crlf + 1 < lf + 1 then _ else _) = Option.map _ (if crlf < lf then _ else _)
          by_cases hlt : crlf < lf
          · rw [if_pos hlt, if_pos (Nat.succ_lt_succ hlt)]
            rfl
          · rw [if_neg hlt, if_neg (by omega)]
            rfl

theorem nextSseEventBoundary_lf (text : List Char) :
    nextSseEventBoundary ('\n' :: '\n' :: text) = some ⟨0, 2⟩ := by
  unfold nextSseEventBoundary
  rw [indexOf_cons_of_start rfl, indexOf_cons_of_not (by simp)]
  cases indexOf ['\r', '\n', '\r', '\n'] ('\n' :: text) <;> rfl

theorem nextSseEventBoundary_crlf (text : List Char) :
    nextSseEventBoundary ('\r' :: '\n' :: '\r' :: '\n' :: text) = some ⟨0, 4⟩ := by
  have hcrlf : indexOf ['\r', '\n', '\r', '\n'] ('\r' :: '\n' :: '\r' :: '\n' :: text) = some 0 :=
    indexOf_cons_of_start rfl
  unfold nextSseEventBoundary
  rw [hcrlf, indexOf_cons_of_not (by simp)]
  cases indexOf ['\n', '\n'] ('\n' :: '\r' :: '\n' :: text) <;> rfl

/-- The one that starts first of the two searches is the leftmost of the two words. -/
theorem nextSseEventBoundary_eq (text : List Char) :
    (nextSseEventBoundary text).map (cutAt text) = nextWord boundaryTexts text := by
  induction text with
  | nil => rfl
  | cons c text ih =>
      by_cases hlf : ['\n', '\n'].isPrefixOf (c :: text) = true
      · obtain ⟨rest, hrest⟩ := List.isPrefixOf_iff_prefix.mp hlf
        rw [← hrest]
        exact congrArg (Option.map _) (nextSseEventBoundary_lf rest)
      · by_cases hcrlf : ['\r', '\n', '\r', '\n'].isPrefixOf (c :: text) = true
        · obtain ⟨rest, hrest⟩ := List.isPrefixOf_iff_prefix.mp hcrlf
          rw [← hrest]
          exact congrArg (Option.map _) (nextSseEventBoundary_crlf rest)
        · have hnone : wordAt boundaryTexts (c :: text) = none := by
            simp [wordAt, boundaryTexts, hlf, hcrlf]
          rw [nextSseEventBoundary_shift hlf hcrlf, nextWord_cons_of_none hnone, ← ih,
            Option.map_map, Option.map_map]
          rfl

end Boundary

/-- Cut at `nextSseEventBoundary`. -/
def eventBoundaries : Splitter Char where
  next text := (nextSseEventBoundary text).map (cutAt text)
  split h := by
    rw [nextSseEventBoundary_eq] at h
    exact boundaryTexts_delimiting.splitter.split h
  text_next h v := by
    rw [nextSseEventBoundary_eq] at h ⊢
    exact boundaryTexts_delimiting.splitter.text_next h v

theorem eventBoundaries_eq : eventBoundaries = boundaryTexts_delimiting.splitter := by
  rw [eventBoundaries, Delimiting.splitter, Splitter.mk.injEq]
  exact funext nextSseEventBoundary_eq

end GhcpConsole.Streams
