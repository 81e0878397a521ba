import GhcpConsole.Diagnostics.Format
import Mathlib.Data.List.TakeWhile

/-!
# Reading a diagnostic log

`parseDiagnosticLog` looks for the first marks of records at the beginnings of lines and for each of
them reads the record up to the first end mark with the same id. What it reads at one line does not
depend on the lines before, so that the entries of a log are those of its lines (`parseDiagnosticLog_eq`).
-/

namespace GhcpConsole.Diagnostics

/-- A match of `beginPattern`: the text from the match on, its id, and the text after the match. -/
structure BeginMatch where
  block : JsString
  id : JsString
  after : JsString
deriving DecidableEq

/-- The match at the front of a text; no shorter id has a space after it. -/
def matchBegin (text : JsString) : Option BeginMatch :=
  let afterPrefix := text.drop beginPrefix.length
  let id := afterPrefix.takeWhile isIdUnit
  let afterId := afterPrefix.dropWhile isIdUnit
  let after := afterId.drop markEnd.length
  if beginPrefix <+: text ∧ id ≠ [] ∧ markEnd <+: afterId ∧ after.head?.all endsLine then
    some ⟨text, id, after⟩
  else none

/-- What `beginPattern.exec` finds, one match after the other. The next one is looked for where the last
match ended, when so many units have been passed. -/
def execAll : Nat → Bool → JsString → List BeginMatch
  | _, _, [] => []
  | passed + 1, _, u :: text => execAll passed (endsLine u) text
  | 0, false, u :: text => execAll 0 (endsLine u) text
  | 0, true, u :: text =>
      match matchBegin (u :: text) with
      | some found => found :: execAll (text.length - found.after.length) (endsLine u) text
      | none => execAll 0 (endsLine u) text

def endMarker (id : JsString) : JsString := lineFeed :: (endPrefix ++ id ++ markEnd)

/-- `ProxyErrorDiagnosticDetailDto`: the members that were read. -/
abbrev Detail := OrderedMap JsString JsonValue

/-- The body of the loop over the matches. -/
def readRecord (begin : BeginMatch) : Option Detail :=
  let bodyStart := begin.block.length - begin.after.length + 1
  let body := begin.after.drop 1
  (indexOf (endMarker begin.id) body).bind fun endIndex =>
    let blockEnd := bodyStart + endIndex + (endMarker begin.id).length
    let block := begin.block.take (if begin.block[blockEnd]? = some lineFeed then blockEnd + 1 else blockEnd)
    (indexOf [lineFeed] body).bind fun metadataLineEnd =>
      let metadataLine := body.take metadataLineEnd
      if endIndex < metadataLineEnd ∨ ¬ metadataPrefix <+: metadataLine then none
      else
        let summary := JsonValue.parse (metadataLine.drop metadataPrefix.length)
        (summary.bind JsonValue.members?).bind fun summary =>
          match OrderedMap.get summary (utf16 "id") with
          | some (.str id) =>
              if id = begin.id then some (summary.set (utf16 "content") (.str block)) else none
          | _ => none

def parseDiagnosticLog (content : JsString) : List Detail := (execAll 0 true content).filterMap readRecord

/-- The texts from the beginnings of lines on. -/
def lineTexts : Bool → JsString → List JsString
  | _, [] => []
  | start, u :: text => (if start then [u :: text] else []) ++ lineTexts (endsLine u) text

/-- What is read at the beginning of a line. -/
def recordAt (text : JsString) : Option Detail := (matchBegin text).bind readRecord

section Lines

variable {u v text : JsString} {c : CodeUnit}

/-- Within a line it makes no difference whether units are passed or looked at. -/
theorem execAll_skip {n : Nat} (h : ∀ c ∈ u, endsLine c = false) (hn : n ≤ u.length) :
    execAll n false (u ++ v) = execAll 0 false v := by
  induction u generalizing n with
  | nil => rw [Nat.le_zero.mp hn, List.nil_append]
  | cons c u ih =>
      have later : ∀ d ∈ u, endsLine d = false := fun d mem => h d (List.mem_cons_of_mem _ mem)
      rw [List.length_cons] at hn
      cases n with
      | zero =>
          rw [List.cons_append, execAll, h c List.mem_cons_self]
          exact ih later (Nat.zero_le _)
      | succ n =>
          rw [List.cons_append, execAll, h c List.mem_cons_self]
          exact ih later (by omega)

theorem isIdUnit_not_endsLine (h : isIdUnit c = true) : endsLine c = false := by
  rw [Bool.eq_false_iff]
  intro ends
  simp only [endsLine, Bool.or_eq_true, decide_eq_true_eq] at ends
  rcases ends with ((rfl | rfl) | rfl) | rfl <;> exact absurd h (by decide)

/-- What a match matches: one line. -/
theorem exists_of_matchBegin {found : BeginMatch} (h : matchBegin text = some found) :
    found.block = text ∧ text = beginPrefix ++ found.id ++ markEnd ++ found.after ∧ found.id ≠ []
      ∧ (∀ c ∈ found.id, isIdUnit c = true) ∧ found.after.head?.all endsLine = true := by
  unfold matchBegin at h
  dsimp only at h
  split at h
  · rename_i matched
    obtain ⟨⟨rest, hbegin⟩, some, ⟨after, hend⟩, ends⟩ := matched
    cases h
    dsimp only
    refine ⟨rfl, ?_, some, fun c mem => List.mem_takeWhile_imp mem, ends⟩
    rw [← hbegin, List.drop_left] at hend ⊢
    rw [← hend, List.drop_left, List.append_assoc, List.append_assoc, hend,
      List.takeWhile_append_dropWhile]
  · cases h

theorem matchBegin_of_line {id after : JsString} (some : id ≠ []) (units : ∀ c ∈ id, isIdUnit c = true)
    (ends : after.head?.all endsLine = true) :
    matchBegin (beginPrefix ++ id ++ markEnd ++ after)
      = .some ⟨beginPrefix ++ id ++ markEnd ++ after, id, after⟩ := by
  have space : (markEnd ++ after).takeWhile isIdUnit = [] ∧
      (markEnd ++ after).dropWhile isIdUnit = markEnd ++ after := ⟨rfl, rfl⟩
  have front : (beginPrefix ++ id ++ markEnd ++ after).drop beginPrefix.length = id ++ (markEnd ++ after) := by
    rw [List.append_assoc, List.append_assoc, List.drop_left]
  have hid : (id ++ (markEnd ++ after)).takeWhile isIdUnit = id := by
    rw [List.takeWhile_append_of_pos units, space.1, List.append_nil]
  have hafter : (id ++ (markEnd ++ after)).dropWhile isIdUnit = markEnd ++ after := by
    rw [List.dropWhile_append_of_pos units, space.2]
  have hfront : beginPrefix <+: beginPrefix ++ id ++ markEnd ++ after := by
    rw [List.append_assoc, List.append_assoc]
    exact List.prefix_append _ _
  unfold matchBegin
  dsimp only
  rw [front, hid, hafter, List.drop_left, if_pos ⟨hfront, some, List.prefix_append _ _, ends⟩]

/-- The line that a match matches has no line end in it. -/
theorem matched_of_matchBegin {found : BeginMatch} (h : matchBegin (c :: text) = some found) :
    ∃ u, text = u ++ found.after ∧ endsLine c = false ∧ ∀ d ∈ u, endsLine d = false := by
  obtain ⟨_, whole, _, units, _⟩ := exists_of_matchBegin h
  have clean : ∀ d ∈ beginPrefix ++ found.id ++ markEnd, endsLine d = false := by
    intro d mem
    simp only [List.mem_append] at mem
    rcases mem with (inBegin | inId) | inEnd
    · revert d
      decide
    · exact isIdUnit_not_endsLine (units d inId)
    · revert d
      decide
  have first : beginPrefix ++ found.id ++ markEnd
      = codeUnit '=' :: (beginPrefix.drop 1 ++ found.id ++ markEnd) := rfl
  rw [first, List.cons_append] at whole
  rw [first] at clean
  obtain ⟨rfl, rest⟩ := List.cons.inj whole
  exact ⟨_, rest, rfl, fun d mem => clean d (List.mem_cons_of_mem _ mem)⟩

theorem execAll_eq (start : Bool) (text : JsString) :
    execAll 0 start text = (lineTexts start text).filterMap matchBegin := by
  induction text generalizing start with
  | nil => cases start <;> rfl
  | cons c text ih =>
      cases start with
      | false =>
          rw [execAll, ih]
          rfl
      | true =>
          rw [execAll, lineTexts, if_pos rfl, List.singleton_append, List.filterMap_cons]
          cases h : matchBegin (c :: text) with
          | none => exact ih _
          | some found =>
              obtain ⟨u, rfl, hc, clean⟩ := matched_of_matchBegin h
              dsimp only
              rw [hc, List.length_append, Nat.add_sub_cancel, execAll_skip clean (Nat.le_refl _),
                ← execAll_skip clean (Nat.zero_le _), ih]

theorem parseDiagnosticLog_eq (content : JsString) :
    parseDiagnosticLog content = (lineTexts true content).filterMap recordAt := by
  rw [parseDiagnosticLog, execAll_eq, List.filterMap_filterMap]
  rfl

end Lines

/-- The line of a first mark. -/
def beginLine (id : JsString) : JsString := beginPrefix ++ id ++ markEnd

section Records

variable {id metadata rest : JsString} {t : CodeUnit} {summary : Detail} {n : Nat}

/-- The end of a block is after the end mark, or after the line feed that follows it. -/
def blockOf (id text : JsString) (endIndex : Nat) : JsString :=
  let blockEnd := (beginLine id).length + 1 + endIndex + (endMarker id).length
  text.take (if text[blockEnd]? = some lineFeed then blockEnd + 1 else blockEnd)

theorem length_begin_sub (u after : JsString) : (u ++ after).length - after.length = u.length := by
  rw [List.length_append, Nat.add_sub_cancel]

/-- The end mark begins with a line feed, so that it comes after the first line. -/
theorem length_le_of_endMarker {line u v : JsString} (h : lineFeed ∉ line)
    (split : line ++ lineFeed :: rest = u ++ endMarker id ++ v) : line.length ≤ u.length := by
  have feed : line ++ lineFeed :: rest = u ++ [lineFeed] ++ (endPrefix ++ id ++ markEnd ++ v) := by
    rw [split, endMarker]
    simp
  obtain ⟨n, bound, found⟩ := indexOf_le feed
  rw [indexOf_singleton h] at found
  cases found
  exact bound

theorem recordAt_of_lines (some : id ≠ []) (units : ∀ c ∈ id, isIdUnit c = true)
    (ends : endsLine t = true) (oneLine : lineFeed ∉ metadata)
    (parsed : JsonValue.parse metadata = .some (.obj summary))
    (own : OrderedMap.get summary (utf16 "id") = .some (.str id))
    (found : indexOf (endMarker id) (metadataPrefix ++ metadata ++ lineFeed :: rest) = .some n) :
    recordAt (beginLine id ++ t :: (metadataPrefix ++ metadata ++ lineFeed :: rest))
      = .some (summary.set (utf16 "content") (.str (blockOf id
          (beginLine id ++ t :: (metadataPrefix ++ metadata ++ lineFeed :: rest)) n))) := by
  have line : lineFeed ∉ metadataPrefix ++ metadata := by
    intro mem
    exact (List.mem_append.mp mem).elim (by decide) oneLine
  obtain ⟨u, v, split, length⟩ := exists_of_indexOf found
  have after : (metadataPrefix ++ metadata).length ≤ n := length ▸ length_le_of_endMarker line split
  have first : (t :: (metadataPrefix ++ metadata ++ lineFeed :: rest)).head?.all endsLine = true := ends
  rw [recordAt, beginLine, matchBegin_of_line some units first, Option.bind_some, readRecord]
  dsimp only
  rw [List.drop_one, List.tail_cons, found, Option.bind_some, indexOf_singleton line, Option.bind_some,
    List.take_left, if_neg (by rw [not_or, not_not]; exact ⟨by omega, List.prefix_append _ _⟩),
    List.drop_left, parsed, Option.bind_some, JsonValue.members?, Option.bind_some, own,
    length_begin_sub]
  dsimp only
  rw [if_pos rfl]
  rfl

/-- A text that begins with a record: a first mark on a line of its own, after it the line with the
summary, and further on the end mark with the same id. -/
def BeginsRecord (text : JsString) : Prop :=
  ∃ (id metadata rest : JsString) (t : CodeUnit) (summary : Detail),
    text = beginLine id ++ t :: (metadataPrefix ++ metadata ++ lineFeed :: rest)
      ∧ id ≠ [] ∧ (∀ c ∈ id, isIdUnit c = true) ∧ endsLine t = true ∧ lineFeed ∉ metadata
      ∧ JsonValue.parse metadata = some (.obj summary)
      ∧ OrderedMap.get summary (utf16 "id") = some (.str id)
      ∧ endMarker id <:+: lineFeed :: rest

theorem recordAt_ne_none_of_beginsRecord {text : JsString} (h : BeginsRecord text) :
    recordAt text ≠ none := by
  obtain ⟨id, metadata, rest, t, summary, rfl, some, units, ends, oneLine, parsed, own, u, v, split⟩ := h
  have whole : metadataPrefix ++ metadata ++ lineFeed :: rest
      = (metadataPrefix ++ metadata ++ u) ++ endMarker id ++ v := by
    rw [← split]
    simp
  obtain ⟨n, _, found⟩ := indexOf_le whole
  rw [recordAt_of_lines some units ends oneLine parsed own found]
  exact nofun

theorem beginsRecord_of_recordAt {text : JsString} {detail : Detail} (h : recordAt text = some detail) :
    BeginsRecord text := by
  rw [recordAt, Option.bind_eq_some_iff] at h
  obtain ⟨⟨block, id, after⟩, found, read⟩ := h
  obtain ⟨_, whole, some, units, ends⟩ := exists_of_matchBegin found
  dsimp only at whole some units ends
  rw [readRecord] at read
  dsimp only at read
  obtain ⟨endIndex, foundEnd, read⟩ := Option.bind_eq_some_iff.mp read
  obtain ⟨lineEnd, foundLine, read⟩ := Option.bind_eq_some_iff.mp read
  obtain ⟨line, rest, body, length, oneLine⟩ := exists_of_indexOf_singleton foundLine
  obtain ⟨u, v, split, _⟩ := exists_of_indexOf foundEnd
  rw [body] at read split
  rw [← length, List.take_left] at read
  split at read
  · cases read
  · rename_i inOrder
    rw [not_or, not_not] at inOrder
    obtain ⟨metadata, rfl⟩ := inOrder.2
    rw [List.drop_left] at read
    obtain ⟨summary, isObject, read⟩ := Option.bind_eq_some_iff.mp read
    obtain ⟨value, parsed, isObject⟩ := Option.bind_eq_some_iff.mp isObject
    have object : value = .obj summary := by
      cases value <;> cases isObject
      rfl
    have own : OrderedMap.get summary (utf16 "id") = .some (.str id) := by
      split at read
      · rename_i ownId isId
        split at read
        · rename_i same
          rw [isId, same]
        · cases read
      · cases read
    cases after with
    | nil =>
        rw [List.drop_nil] at body
        exact absurd body.symm (by simp)
    | cons t body' =>
        rw [List.drop_one, List.tail_cons] at body
        have short := length_le_of_endMarker oneLine split
        have front : metadataPrefix ++ metadata <+: u := by
          refine List.prefix_of_prefix_length_le (List.prefix_append _ (lineFeed :: rest)) ?_ short
          rw [split, List.append_assoc]
          exact List.prefix_append _ _
        obtain ⟨u', rfl⟩ := front
        rw [List.append_assoc (_ ++ u'), List.append_assoc (metadataPrefix ++ metadata)] at split
        refine ⟨id, metadata, rest, t, summary, ?_, some, units, ends, ?_, ?_, own, u', v, ?_⟩
        · rw [whole, body, beginLine]
        · exact fun mem => oneLine (List.mem_append_right _ mem)
        · rw [parsed, object]
        · rw [List.append_cancel_left split, List.append_assoc]

end Records

end GhcpConsole.Diagnostics
