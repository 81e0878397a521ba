import GhcpConsole.Diagnostics.FailureSummary
import GhcpConsole.Lib.JsonLengths
import Mathlib.Tactic.IntervalCases

/-!
# The strings of a body are not longer than the body

Decoding, putting the lines of an event together and parsing all make texts that are not longer than what
they are made of. A known value that is too long to be looked for is too long to be there.
-/

namespace GhcpConsole.Diagnostics

section Decoding

variable {d : TextDecoder} {bytes : List UInt8} {text : List Char}

theorem length_units_le (c : Char) : (Char.units c).length ≤ 2 := by
  unfold Char.units
  split
  · exact Nat.le_succ _
  · exact Nat.le_refl _

theorem length_units_ascii {byte : Nat} (h : byte ≤ 0x7F) : (Char.units (Char.ofNat byte)).length = 1 := by
  interval_cases byte <;> rfl

theorem length_units_emit (c : Char) : ((d.emit c).1.flatMap Char.units).length ≤ (Char.units c).length := by
  unfold TextDecoder.emit
  dsimp only
  split
  · exact Nat.zero_le _
  · simp

/-- A sequence that was begun has used up a byte. -/
theorem length_fatal (h : d.fatal bytes = some text) :
    (text.flatMap Char.units).length ≤ bytes.length + if d.bytesNeeded = 0 then 0 else 1 := by
  induction bytes generalizing d text with
  | nil =>
      rw [TextDecoder.fatal] at h
      split at h
      · cases h
        exact Nat.zero_le _
      · cases h
  | cons byte bytes ih =>
      obtain ⟨⟨chars, next⟩, step, h⟩ := Option.bind_eq_some_iff.mp h
      obtain ⟨rest, decoded, rfl⟩ := Option.map_eq_some_iff.mp h
      have later := ih decoded
      rw [List.flatMap_append, List.length_append, List.length_cons]
      rcases TextDecoder.fatalStep_cases step with
        ⟨between, ascii, same⟩ | ⟨between, none, begun⟩ | ⟨within, c, same⟩ | ⟨within, none, still⟩
      · have first := length_units_emit (d := d) (Char.ofNat byte.toNat)
        rw [length_units_ascii ascii] at first
        have needed : next.bytesNeeded = 0 := by
          rw [show next = (d.emit (Char.ofNat byte.toNat)).2 from congrArg Prod.snd same]
          exact between
        rw [← same] at first
        rw [if_pos needed] at later
        dsimp only at first ⊢
        omega
      · rw [if_neg begun] at later
        rw [show chars = [] from none]
        simp only [List.flatMap_nil, List.length_nil]
        omega
      · have first := length_units_emit (d := d.reset) c
        have := length_units_le c
        have needed : next.bytesNeeded = 0 := by
          rw [show next = (d.reset.emit c).2 from congrArg Prod.snd same]
          rfl
        rw [← same] at first
        rw [if_pos needed] at later
        rw [if_neg within]
        dsimp only at first ⊢
        omega
      · dsimp only at still
        rw [still, if_neg within] at later
        rw [show chars = [] from none, if_neg within]
        simp only [List.flatMap_nil, List.length_nil]
        omega

end Decoding

section Events

variable {text event : JsString}

theorem length_of_mem_splitEvents {inRun : Bool} (mem : event ∈ splitEvents inRun text) :
    event.length ≤ text.length := by
  fun_induction splitEvents inRun text generalizing event with
  | case1 =>
      rw [List.mem_singleton.mp mem]
  | case2 _ _ _ _ ih => exact (ih mem).trans (Nat.le_succ _)
  | case3 _ _ _ _ _ ih =>
      rcases List.mem_cons.mp mem with rfl | mem
      · exact Nat.zero_le _
      · exact (ih mem).trans (Nat.le_succ _)
  | case4 inRun u text _ _ first events split ih =>
      rw [split] at ih
      rcases List.mem_cons.mp mem with rfl | mem
      · exact Nat.succ_le_succ (ih List.mem_cons_self)
      · exact (ih (List.mem_cons_of_mem _ mem)).trans (Nat.le_succ _)
  | case5 _ u text _ _ _ _ =>
      rw [List.mem_singleton.mp mem]
      simp

theorem length_of_mem_eventsOf (mem : event ∈ eventsOf text) : event.length ≤ text.length := by
  refine (length_of_mem_splitEvents mem).trans (length_replaceWith Regex.within_match? (fun _ _ n _ => ?_) _ _)
  exact Nat.succ_le_succ (Nat.zero_le n)

/-- `lines.join('\n')`. -/
theorem length_inLines (lines : List JsString) :
    (JsString.inLines lines).length ≤ (lines.map fun line => line.length + 1).sum
      ∧ (lines ≠ [] → (JsString.inLines lines).length + 1 = (lines.map fun line => line.length + 1).sum) := by
  induction lines with
  | nil => exact ⟨Nat.le_refl _, fun some => absurd rfl some⟩
  | cons line lines ih =>
      cases lines with
      | nil => simp [JsString.inLines]
      | cons next lines =>
          have later := ih.2 (List.cons_ne_nil _ _)
          rw [JsString.inLines_cons line (List.cons_ne_nil _ _), List.length_append, List.length_cons,
            List.map_cons, List.sum_cons]
          omega

theorem sum_filter_le (keep : JsString → Bool) {change : JsString → JsString} {lines : List JsString}
    (shorter : ∀ line, (change line).length ≤ line.length) :
    (((lines.filter keep).map change).map fun line => line.length + 1).sum
      ≤ (lines.map fun line => line.length + 1).sum := by
  induction lines with
  | nil => exact Nat.le_refl _
  | cons line lines ih =>
      have := shorter line
      rw [List.filter_cons]
      split
      · simp only [List.map_cons, List.sum_cons] at *
        omega
      · simp only [List.map_cons, List.sum_cons] at *
        omega

theorem length_inLines_filter {keep : JsString → Bool} {change : JsString → JsString}
    (shorter : ∀ line, (change line).length ≤ line.length) :
    (JsString.inLines (((event.splitOn lineFeed).filter keep).map change)).length ≤ event.length := by
  have whole : JsString.inLines (event.splitOn lineFeed) = event := List.intercalate_splitOn lineFeed
  have total := (length_inLines (event.splitOn lineFeed)).2 (by simp)
  rw [whole] at total
  by_cases none : (event.splitOn lineFeed).filter keep = []
  · rw [none]
    exact Nat.zero_le _
  · have sum := (length_inLines (((event.splitOn lineFeed).filter keep).map change)).2 (by simpa using none)
    rw [← Nat.add_le_add_iff_right (n := 1), sum, total]
    exact sum_filter_le keep shorter

theorem length_eventData : (eventData event).length ≤ event.length := by
  refine length_inLines_filter fun line => ?_
  split
  · exact Nat.zero_le _
  · dsimp only
    split
    · rw [List.length_drop, List.length_drop]
      omega
    · rw [List.length_drop]
      omega

end Events

section Payload

open JsonValue

theorem map_of_mapM {α β : Type} {f : α → Option β} {list : List α} {values : List β}
    (h : list.mapM f = some values) : list.map f = values.map some := by
  induction list generalizing values with
  | nil =>
      cases h
      rfl
  | cons x list ih =>
      rw [List.mapM_cons] at h
      obtain ⟨value, first, h⟩ := Option.bind_eq_some_iff.mp h
      obtain ⟨rest, later, h⟩ := Option.bind_eq_some_iff.mp h
      cases h
      rw [List.map_cons, List.map_cons, first, ih later]

variable {n : Nat} {text mediaType : JsString} {fields : Fields} {value : JsonValue}

/-- No string among the fields is longer. -/
def Fields.AtMost (n : Nat) (fields : Fields) : Prop :=
  ∀ value ∈ [fields.message, fields.code, fields.type], ∀ held ∈ value, JsonValue.AtMost n held

theorem AtMost.mono {m : Nat} (h : JsonValue.AtMost m value) (le : m ≤ n) : JsonValue.AtMost n value := by
  induction h with
  | null => exact .null
  | bool value => exact .bool value
  | num value => exact .num value
  | str length => exact .str (length.trans le)
  | arr _ ih => exact .arr ih
  | obj _ ih => exact .obj ih

theorem atMost_fieldsOf {members : OrderedMap JsString JsonValue} (h : JsonValue.AtMost n (.obj members)) :
    (fieldsOf members).AtMost n := by
  intro value mem held found
  simp only [List.mem_cons, List.not_mem_nil, or_false] at mem
  rcases mem with rfl | rfl | rfl <;> exact h.get found

theorem atMost_extract (h : JsonValue.AtMost n value) (found : extract value = some fields) : fields.AtMost n := by
  obtain ⟨members, isObject, inside⟩ := Option.bind_eq_some_iff.mp found
  clear found
  obtain rfl : value = .obj members := by
    cases value <;> cases isObject
    rfl
  split at inside
  · rename_i message own
    cases inside
    intro value mem held found
    simp only [List.mem_cons, List.not_mem_nil, or_false] at mem
    rcases mem with rfl | rfl | rfl
    · cases found
      exact h.get own
    · cases found
    · cases found
  · rename_i error _ own
    obtain ⟨inner, isObject, rfl⟩ := Option.map_eq_some_iff.mp inside
    obtain rfl : error = .obj inner := by
      cases error <;> cases isObject
      rfl
    exact atMost_fieldsOf (h.get own)
  · dsimp only at inside
    split at inside
    · cases inside
      exact atMost_fieldsOf h
    · cases inside

theorem atMost_parsePayload (h : parsePayload text mediaType = some (some fields)) : fields.AtMost text.length := by
  unfold parsePayload at h
  split at h
  · obtain ⟨value, parsed, found⟩ := Option.map_eq_some_iff.mp h
    exact atMost_extract (parse_atMost parsed) found
  · split at h
    · cases h
    · dsimp only at h
      split at h
      · cases h
      · obtain ⟨values, parsed, found⟩ := Option.map_eq_some_iff.mp h
        obtain ⟨value, mem, found⟩ := List.mem_filterMap.mp (List.mem_of_find?_eq_some found)
        have read : some value ∈ (parsedData (eventsOf text)).map parse := by
          rw [map_of_mapM parsed]
          exact List.mem_map_of_mem mem
        obtain ⟨data, inData, read⟩ := List.mem_map.mp read
        obtain ⟨event, inEvents, rfl⟩ := List.mem_map.mp (List.mem_of_mem_filter inData)
        exact atMost_extract (AtMost.mono (parse_atMost read)
          (length_eventData.trans (length_of_mem_eventsOf inEvents))) found

end Payload

end GhcpConsole.Diagnostics
