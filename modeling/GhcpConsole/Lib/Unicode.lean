import GhcpConsole.Lib.CodeUnits
import Mathlib.Data.List.Chain

/-!
# Code points

What a pattern with the flag `u` and `Array.from` see of a text: the characters, and the halves of
surrogate pairs that stand alone.
-/

namespace GhcpConsole

/-- The code point of a surrogate pair. -/
def codePoint (high low : CodeUnit) : Nat :=
  0x10000 + (high.toNat - 0xD800) * 0x400 + (low.toNat - 0xDC00)

/-- `\\p{Cf}`. -/
def isFormat (n : Nat) : Bool :=
  n = 0xAD || (0x600 ≤ n && n ≤ 0x605) || n = 0x61C || n = 0x6DD || n = 0x70F || (0x890 ≤ n && n ≤ 0x891)
    || n = 0x8E2 || n = 0x180E || (0x200B ≤ n && n ≤ 0x200F) || (0x202A ≤ n && n ≤ 0x202E)
    || (0x2060 ≤ n && n ≤ 0x2064) || (0x2066 ≤ n && n ≤ 0x206F) || n = 0xFEFF || (0xFFF9 ≤ n && n ≤ 0xFFFB)
    || n = 0x110BD || n = 0x110CD || (0x13430 ≤ n && n ≤ 0x1343F) || (0x1BCA0 ≤ n && n ≤ 0x1BCA3)
    || (0x1D173 ≤ n && n ≤ 0x1D17A) || n = 0xE0001 || (0xE0020 ≤ n && n ≤ 0xE007F)

/-- `\\p{Cc}`. -/
def isControl (u : CodeUnit) : Bool := u ≤ 0x1F || (0x7F ≤ u && u ≤ 0x9F)

/-- `\\p{Z}`. -/
def isSeparator (u : CodeUnit) : Bool :=
  u = 0x20 || u = 0xA0 || u = 0x1680 || (0x2000 ≤ u && u ≤ 0x200A) || u = 0x2028 || u = 0x2029
    || u = 0x202F || u = 0x205F || u = 0x3000

namespace JsString

/-- `Array.from(text)`. -/
def codePoints : JsString → List JsString
  | high :: low :: text =>
      if isHighSurrogate high ∧ isLowSurrogate low then [high, low] :: codePoints text
      else [high] :: codePoints (low :: text)
  | [u] => [[u]]
  | [] => []

/-- `text.replace(/[\p{Cf}]/gu, '')`. -/
def removeFormat : JsString → JsString
  | high :: low :: text =>
      if isHighSurrogate high ∧ isLowSurrogate low then
        if isFormat (codePoint high low) then removeFormat text else high :: low :: removeFormat text
      else if isFormat high.toNat then removeFormat (low :: text)
      else high :: removeFormat (low :: text)
  | [u] => if isFormat u.toNat then [] else [u]
  | [] => []

section CodePoints

variable {high low u : CodeUnit} {text v : JsString}

section
-- Generates the equations here, once for all the proofs below.
attribute [local simp] codePoints removeFormat
end

theorem isLowSurrogate_not_high (h : isLowSurrogate u = true) : isHighSurrogate u = false := by
  rw [Bool.eq_false_iff]
  intro h'
  simp only [isLowSurrogate, isHighSurrogate, Bool.and_eq_true, decide_eq_true_eq, UInt16.le_iff_toNat_le] at h h'
  have := h.1
  have := h'.2
  simp at *
  omega

theorem codePoints_low (h : isLowSurrogate low = true) : codePoints (low :: text) = [low] :: codePoints text := by
  cases text with
  | nil => rfl
  | cons u text => rw [codePoints, if_neg (by simp [isLowSurrogate_not_high h])]

theorem flatten_codePoints (text : JsString) : (codePoints text).flatten = text := by
  fun_induction codePoints text with
  | case1 high low text pair ih => simp [ih]
  | case2 high low text pair ih => simp [ih]
  | case3 u => rfl
  | case4 => rfl

theorem length_codePoints_cons_le : (codePoints (u :: v)).length ≤ 1 + (codePoints v).length := by
  cases v with
  | nil => simp [codePoints]
  | cons low v =>
      rw [codePoints]
      split
      · rename_i pair
        rw [codePoints_low pair.2, List.length_cons, List.length_cons]
        omega
      · rw [List.length_cons]
        omega

/-- Two texts next to each other have no more code points than each for itself. -/
theorem length_codePoints_append_le (text v : JsString) :
    (codePoints (text ++ v)).length ≤ (codePoints text).length + (codePoints v).length := by
  fun_induction codePoints text with
  | case1 high low text pair ih =>
      rw [List.cons_append, List.cons_append, codePoints, if_pos pair, List.length_cons, List.length_cons]
      omega
  | case2 high low text pair ih =>
      rw [List.cons_append, List.cons_append, codePoints, if_neg pair, List.length_cons, List.length_cons]
      rw [List.cons_append] at ih
      omega
  | case3 u => exact length_codePoints_cons_le
  | case4 => simp

theorem length_codePoints_of_mem {part : JsString} (h : part ∈ codePoints text) :
    (codePoints part).length = 1 := by
  fun_induction codePoints text with
  | case1 high low text pair ih =>
      rcases List.mem_cons.mp h with rfl | h
      · rw [codePoints, if_pos pair]
        rfl
      · exact ih h
  | case2 high low text pair ih =>
      rcases List.mem_cons.mp h with rfl | h
      · rfl
      · exact ih h
  | case3 u =>
      rw [List.mem_singleton.mp h]
      rfl
  | case4 => cases h

theorem length_codePoints_flatten_le {parts : List JsString} (h : ∀ part ∈ parts, (codePoints part).length = 1) :
    (codePoints parts.flatten).length ≤ parts.length := by
  induction parts with
  | nil => exact Nat.le_refl _
  | cons part parts ih =>
      have first := h part List.mem_cons_self
      have later := ih fun other mem => h other (List.mem_cons_of_mem _ mem)
      have := length_codePoints_append_le part parts.flatten
      rw [List.flatten_cons, List.length_cons]
      omega

end CodePoints

section Format

variable {a b u : CodeUnit} {text : JsString}

/-- The two units are a format character. -/
def joins (a b : CodeUnit) : Bool := isHighSurrogate a && isLowSurrogate b && isFormat (codePoint a b)

theorem removeFormat_sublist (text : JsString) : (removeFormat text).Sublist text := by
  fun_induction removeFormat text with
  | case1 _ _ _ _ _ ih => exact (ih.cons _).cons _
  | case2 _ _ _ _ _ ih => exact (ih.cons_cons _).cons_cons _
  | case3 _ _ _ _ _ ih => exact ih.cons _
  | case4 _ _ _ _ _ ih => exact ih.cons_cons _
  | case5 => exact List.nil_sublist _
  | case6 => exact List.Sublist.refl _
  | case7 => exact List.Sublist.refl _

theorem surrogate_not_format (h : isHighSurrogate u = true ∨ isLowSurrogate u = true) :
    isFormat u.toNat = false := by
  have bounds : 0xD800 ≤ u.toNat ∧ u.toNat ≤ 0xDFFF := by
    simp only [isLowSurrogate, isHighSurrogate, Bool.and_eq_true, decide_eq_true_eq,
      UInt16.le_iff_toNat_le] at h
    simp at h
    omega
  rw [Bool.eq_false_iff]
  intro format
  simp only [isFormat, Bool.or_eq_true, Bool.and_eq_true, decide_eq_true_eq] at format
  omega

theorem removeFormat_ne_of_shorter {v : JsString} (h : v.length < text.length) : removeFormat v ≠ text := by
  intro same
  have := (removeFormat_sublist v).length_le
  rw [same] at this
  omega

/-- Nothing is removed where no unit and no pair is a format character. -/
theorem removeFormat_eq_self_iff : removeFormat text = text ↔
    (∀ u ∈ text, isFormat u.toNat = false) ∧ text.IsChain fun a b => joins a b = false := by
  fun_induction removeFormat text with
  | case1 high low text pair format ih =>
      refine ⟨fun same => absurd same (removeFormat_ne_of_shorter ?_), fun h => ?_⟩
      · rw [List.length_cons, List.length_cons]
        omega
      rw [List.isChain_cons_cons] at h
      exact absurd h.2.1 (by simp [joins, pair, format])
  | case2 high low text pair other ih =>
      have here : joins high low = false := by simp [joins, other]
      have next : ∀ c ∈ text.head?, joins low c = false := by
        simp [joins, isLowSurrogate_not_high pair.2]
      rw [List.cons.injEq, List.cons.injEq, List.isChain_cons_cons, List.isChain_cons, List.forall_mem_cons,
        List.forall_mem_cons, ih]
      constructor
      · rintro ⟨_, _, units, chain⟩
        exact ⟨⟨surrogate_not_format (.inl pair.1), surrogate_not_format (.inr pair.2), units⟩, here, next, chain⟩
      · rintro ⟨⟨_, _, units⟩, _, _, chain⟩
        exact ⟨rfl, rfl, units, chain⟩
  | case3 high low text single format ih =>
      refine ⟨fun same => absurd same (removeFormat_ne_of_shorter (by simp)), fun h => ?_⟩
      rw [List.forall_mem_cons] at h
      exact absurd h.1.1 (by simp [format])
  | case4 high low text single other ih =>
      have here : joins high low = false := by
        rw [joins, Bool.and_eq_false_iff, Bool.eq_false_iff, Ne, Bool.and_eq_true]
        exact .inl single
      rw [List.cons.injEq, List.isChain_cons_cons, List.forall_mem_cons, ih]
      constructor
      · rintro ⟨_, units, chain⟩
        exact ⟨⟨Bool.eq_false_iff.mpr other, units⟩, here, chain⟩
      · rintro ⟨⟨_, units⟩, _, chain⟩
        exact ⟨rfl, units, chain⟩
  | case5 u format => simp [format]
  | case6 u other => simpa using other
  | case7 => simp

end Format

section Characters

variable {u : CodeUnit} {text : JsString} {c : Char}

theorem removeFormat_cons (h : isHighSurrogate u = false) :
    removeFormat (u :: text) = if isFormat u.toNat then removeFormat text else u :: removeFormat text := by
  cases text with
  | nil => rfl
  | cons low text => rw [removeFormat, if_neg (by simp [h])]

theorem removeFormat_pair {high low : CodeUnit} (h : isHighSurrogate high = true ∧ isLowSurrogate low = true) :
    removeFormat (high :: low :: text)
      = if isFormat (codePoint high low) then removeFormat text else high :: low :: removeFormat text := by
  rw [removeFormat, if_pos h]

theorem removeFormat_alone (h : ∀ v ∈ text.head?, isHighSurrogate u = false ∨ isLowSurrogate v = false) :
    removeFormat (u :: text) = if isFormat u.toNat then removeFormat text else u :: removeFormat text := by
  cases text with
  | nil => rfl
  | cons low text =>
      rw [removeFormat, if_neg]
      rcases h low rfl with single | single
      · simp [single]
      · simp [single]

/-- Where no pair is divided, the parts can be looked at one by one. -/
theorem removeFormat_append {first second : JsString}
    (h : ∀ u ∈ first.getLast?, ∀ v ∈ second.head?, isHighSurrogate u = false ∨ isLowSurrogate v = false) :
    removeFormat (first ++ second) = removeFormat first ++ removeFormat second := by
  fun_induction removeFormat first with
  | case1 high low text pair format ih =>
      rw [List.cons_append, List.cons_append, removeFormat_pair pair, if_pos format, ih]
      exact fun u last => h u (by simp [List.getLast?_cons, Option.mem_def.mp last])
  | case2 high low text pair other ih =>
      rw [List.cons_append, List.cons_append, removeFormat_pair pair, if_neg other, ih]
      · rfl
      · exact fun u last => h u (by simp [List.getLast?_cons, Option.mem_def.mp last])
  | case3 high low text single format ih =>
      rw [List.cons_append, List.cons_append, removeFormat, if_neg single, if_pos format, ← List.cons_append, ih]
      exact fun u last => h u (by rwa [List.getLast?_cons_cons])
  | case4 high low text single other ih =>
      rw [List.cons_append, List.cons_append, removeFormat, if_neg single, if_neg other, ← List.cons_append, ih]
      · rfl
      · exact fun u last => h u (by rwa [List.getLast?_cons_cons])
  | case5 u format => rw [List.singleton_append, removeFormat_alone (h u rfl), if_pos format, List.nil_append]
  | case6 u other => rw [List.singleton_append, removeFormat_alone (h u rfl), if_neg other, List.singleton_append]
  | case7 => rfl

/-- Units that are no part of a format character stay, whatever comes after them. -/
theorem removeFormat_plain_append {plain : JsString}
    (h : ∀ u ∈ plain, isHighSurrogate u = false ∧ isFormat u.toNat = false) :
    removeFormat (plain ++ text) = plain ++ removeFormat text := by
  induction plain with
  | nil => rfl
  | cons u plain ih =>
      rw [List.forall_mem_cons] at h
      rw [List.cons_append, removeFormat_cons h.1.1, if_neg (by simp [h.1.2]), ih h.2]
      rfl

/-- What is left of a text in two parts was left of two parts of the text. -/
theorem exists_of_removeFormat_append {first second : JsString} (h : removeFormat text = first ++ second) :
    ∃ front back, text = front ++ back ∧ removeFormat front = first ∧ removeFormat back = second := by
  fun_induction removeFormat text generalizing first with
  | case1 high low text pair format ih =>
      obtain ⟨front, back, rfl, isFirst, isSecond⟩ := ih h
      exact ⟨high :: low :: front, back, rfl, by rw [removeFormat_pair pair, if_pos format, isFirst], isSecond⟩
  | case2 high low text pair other ih =>
      match first with
      | [] => exact ⟨[], _, rfl, rfl, by rw [removeFormat_pair pair, if_neg other]; exact h⟩
      | [u] =>
          obtain ⟨rfl, rfl⟩ := List.cons.inj h
          refine ⟨[high], _, rfl, ?_, ?_⟩
          · rw [removeFormat, surrogate_not_format (.inl pair.1)]
            rfl
          · rw [removeFormat_cons (isLowSurrogate_not_high pair.2), surrogate_not_format (.inr pair.2)]
            rfl
      | u :: v :: first =>
          simp only [List.cons_append, List.cons.injEq] at h
          obtain ⟨rfl, rfl, h⟩ := h
          obtain ⟨front, back, rfl, isFirst, isSecond⟩ := ih h
          exact ⟨high :: low :: front, back, rfl, by rw [removeFormat_pair pair, if_neg other, isFirst], isSecond⟩
  | case3 high low text single format ih =>
      obtain ⟨front, back, split, isFirst, isSecond⟩ := ih h
      refine ⟨high :: front, back, by rw [split]; rfl, ?_, isSecond⟩
      cases front with
      | nil =>
          rw [removeFormat, if_pos format]
          exact isFirst
      | cons v front =>
          obtain ⟨rfl, -⟩ := List.cons.inj split
          rw [removeFormat, if_neg single, if_pos format, isFirst]
  | case4 high low text single other ih =>
      match first with
      | [] => exact ⟨[], _, rfl, rfl, by rw [removeFormat, if_neg single, if_neg other]; exact h⟩
      | u :: first =>
          simp only [List.cons_append, List.cons.injEq] at h
          obtain ⟨rfl, h⟩ := h
          obtain ⟨front, back, split, isFirst, isSecond⟩ := ih h
          refine ⟨high :: front, back, by rw [split]; rfl, ?_, isSecond⟩
          cases front with
          | nil =>
              rw [removeFormat, if_neg other, ← isFirst]
              rfl
          | cons v front =>
              obtain ⟨rfl, -⟩ := List.cons.inj split
              rw [removeFormat, if_neg single, if_neg other, isFirst]
  | case5 u format =>
      obtain ⟨rfl, rfl⟩ := List.append_eq_nil_iff.mp h.symm
      exact ⟨[u], [], rfl, by rw [removeFormat, if_pos format], rfl⟩
  | case6 u other =>
      have whole : removeFormat [u] = [u] := by rw [removeFormat, if_neg other]
      cases first with
      | nil => exact ⟨[], [u], rfl, rfl, whole.trans h⟩
      | cons v first =>
          simp only [List.cons_append, List.cons.injEq] at h
          obtain ⟨rfl, h⟩ := h
          obtain ⟨rfl, rfl⟩ := List.append_eq_nil_iff.mp h.symm
          exact ⟨[u], [], rfl, whole, rfl⟩
  | case7 =>
      obtain ⟨rfl, rfl⟩ := List.append_eq_nil_iff.mp h.symm
      exact ⟨[], [], rfl, rfl, rfl⟩

/-- A character is a unit that is not the first half of a pair, or a pair. -/
theorem units_cases (c : Char) : (∃ u, Char.units c = [u] ∧ isHighSurrogate u = false)
    ∨ ∃ high low, Char.units c = [high, low] ∧ isHighSurrogate high = true ∧ isLowSurrogate low = true := by
  have valid : c.toNat < 0xD800 ∨ 0xDFFF < c.toNat ∧ c.toNat < 0x110000 := c.valid
  unfold Char.units
  split
  · rename_i small
    refine .inl ⟨_, rfl, ?_⟩
    rw [isHighSurrogate, Bool.and_eq_false_iff, decide_eq_false_iff_not, decide_eq_false_iff_not,
      UInt16.le_iff_toNat_le, UInt16.le_iff_toNat_le, UInt16.toNat_ofNat_of_lt' small]
    simp
    omega
  · have high : (UInt16.ofNat (0xD800 + (c.toNat - 0x10000) / 0x400)).toNat
        = 0xD800 + (c.toNat - 0x10000) / 0x400 :=
      UInt16.toNat_ofNat_of_lt' (Nat.lt_of_lt_of_le (m := 0xE000) (by omega) (by decide))
    have low : (UInt16.ofNat (0xDC00 + (c.toNat - 0x10000) % 0x400)).toNat
        = 0xDC00 + (c.toNat - 0x10000) % 0x400 :=
      UInt16.toNat_ofNat_of_lt' (Nat.lt_of_lt_of_le (m := 0xE000) (by omega) (by decide))
    refine .inr ⟨_, _, rfl, ?_, ?_⟩
    · rw [isHighSurrogate, Bool.and_eq_true, decide_eq_true_eq, decide_eq_true_eq,
        UInt16.le_iff_toNat_le, UInt16.le_iff_toNat_le, high]
      simp
      omega
    · rw [isLowSurrogate, Bool.and_eq_true, decide_eq_true_eq, decide_eq_true_eq,
        UInt16.le_iff_toNat_le, UInt16.le_iff_toNat_le, low]
      simp
      omega

/-- Of a text of characters nothing is removed twice. -/
theorem removeFormat_removeFormat (chars : List Char) :
    removeFormat (removeFormat (chars.flatMap Char.units)) = removeFormat (chars.flatMap Char.units) := by
  induction chars with
  | nil => rfl
  | cons c chars ih =>
      rw [List.flatMap_cons]
      rcases units_cases c with ⟨u, units, single⟩ | ⟨high, low, units, isHigh, isLow⟩
      · rw [units, List.singleton_append, removeFormat_cons single]
        split
        · exact ih
        · rename_i other
          rw [removeFormat_cons single, if_neg other, ih]
      · rw [units, List.cons_append, List.singleton_append, removeFormat_pair ⟨isHigh, isLow⟩]
        split
        · exact ih
        · rename_i other
          rw [removeFormat_pair ⟨isHigh, isLow⟩, if_neg other, ih]

end Characters

end JsString

end GhcpConsole
