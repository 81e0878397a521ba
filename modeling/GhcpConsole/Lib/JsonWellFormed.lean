import GhcpConsole.Lib.JsonRoundTrip
import GhcpConsole.Lib.Utf8

/-!
# Values as well-formed texts

`JSON.stringify` writes a surrogate that stands alone as an escape, so that what it writes is text.
-/

namespace GhcpConsole.JsonValue

open JsString

variable {u : CodeUnit} {text : JsString}

theorem wellFormed_of_units (h : ∀ u ∈ text, isHighSurrogate u = false ∧ isLowSurrogate u = false) :
    WellFormed text := by
  induction text with
  | nil => exact wellFormed_nil
  | cons u text ih =>
      have first := h u List.mem_cons_self
      exact (wellFormed_singleton first.1 first.2).append (ih fun c mem => h c (List.mem_cons_of_mem _ mem))

theorem wellFormed_escapedUnit (u : CodeUnit) : WellFormed (escapedUnit u) := by
  unfold escapedUnit
  split
  · rename_i e found
    have letters : ∀ e ∈ escapes, ∀ c ∈ [codeUnit '\\', e.1],
        isHighSurrogate c = false ∧ isLowSurrogate c = false := by decide
    exact wellFormed_of_units (letters e (List.mem_of_find?_eq_some found))
  · split
    · refine (wellFormed_utf16 "\\u").append (wellFormed_of_units fun c mem => ?_)
      obtain ⟨d, digit, rfl⟩ := List.mem_map.mp mem
      have small : d < 16 := by
        have := u.toNat_lt
        simp only [List.mem_cons, List.not_mem_nil, or_false] at digit
        omega
      interval_cases d <;> decide
    · rename_i plain
      rw [not_or, not_or, Bool.not_eq_true, Bool.not_eq_true] at plain
      exact wellFormed_singleton plain.2.1 plain.2.2

/-- Two halves that belong together are a character. -/
theorem wellFormed_pair {high low : CodeUnit} (h : isHighSurrogate high = true) (hlow : isLowSurrogate low = true) :
    WellFormed [high, low] := by
  rw [isHighSurrogate_iff] at h
  rw [isLowSurrogate_iff] at hlow
  have large : 0x10000 ≤ codePoint high low ∧ codePoint high low < 0x110000 := by
    unfold codePoint
    omega
  have quotient : (codePoint high low - 0x10000) / 0x400 = high.toNat - 0xD800 := by
    unfold codePoint
    omega
  have remainder : (codePoint high low - 0x10000) % 0x400 = low.toNat - 0xDC00 := by
    unfold codePoint
    omega
  have char : (Char.ofNat (codePoint high low)).toNat = codePoint high low := by
    rw [Char.ofNat, dif_pos (.inr ⟨by omega, large.2⟩)]
    rfl
  refine ⟨[Char.ofNat (codePoint high low)], ?_⟩
  rw [ofChars, List.flatMap_singleton, Char.units, char, if_neg (by omega), quotient, remainder,
    Nat.add_sub_cancel' h.1, Nat.add_sub_cancel' hlow.1, UInt16.ofNat_toNat, UInt16.ofNat_toNat]

theorem wellFormed_escaped (text : JsString) : WellFormed (escaped text) := by
  fun_induction escaped text with
  | case1 high low text pair ih => exact (wellFormed_pair pair.1 pair.2).append ih
  | case2 high low text other ih => exact (wellFormed_escapedUnit high).append ih
  | case3 u => exact wellFormed_escapedUnit u
  | case4 => exact wellFormed_nil

theorem wellFormed_quote (text : JsString) : WellFormed (quote text) := by
  have mark : WellFormed [codeUnit '"'] := wellFormed_singleton (by decide) (by decide)
  exact (mark.append (wellFormed_escaped text)).append mark

theorem wellFormed_stringify (value : JsonValue) : WellFormed (stringify value) := by
  have number : ∀ u ∈ Double.units, isHighSurrogate u = false ∧ isLowSurrogate u = false := by decide
  have closed : Closed (List.replicate 0 (codeUnit ' ')) WellFormed :=
    { nil := wellFormed_nil
      append := WellFormed.append
      quote := wellFormed_quote
      number := fun x => wellFormed_of_units fun u mem => number u (Double.units_toText x u mem)
      mark := fun name _ => wellFormed_utf16 name
      line := fun some => absurd rfl some }
  exact closed.serialize 0 value

end GhcpConsole.JsonValue
