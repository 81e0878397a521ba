import GhcpConsole.Lib.TextDecoder
import GhcpConsole.Lib.Unicode

/-!
# Texts as UTF-8

What a text is written as, and what any bytes are read as. A half of a surrogate pair is written as U+FFFD;
apart from that a text is read as it was written, whatever comes behind it (`decode_encode_append`), and a
line feed is read as one, whatever comes before it (`decode_lineFeed`).
-/

namespace GhcpConsole

namespace JsString

/-- The character of a code point; a surrogate that stands alone has none. -/
def scalar : JsString → Char
  | [high, low] => Char.ofNat (codePoint high low)
  | [u] => if isHighSurrogate u ∨ isLowSurrogate u then TextDecoder.replacement else Char.ofNat u.toNat
  | _ => TextDecoder.replacement

/-- The characters of a text. -/
def scalars (text : JsString) : List Char := (codePoints text).map scalar

/-- The text that characters make. -/
def ofChars (chars : List Char) : JsString := chars.flatMap Char.units

/-- No surrogate stands alone. -/
def WellFormed (text : JsString) : Prop := ∃ chars, text = ofChars chars

end JsString

namespace Utf8

def encodeChar (c : Char) : List UInt8 :=
  let n := c.toNat
  (if n < 0x80 then [n]
  else if n < 0x800 then [0xC0 + n / 0x40, 0x80 + n % 0x40]
  else if n < 0x10000 then [0xE0 + n / 0x1000, 0x80 + n / 0x40 % 0x40, 0x80 + n % 0x40]
  else [0xF0 + n / 0x40000, 0x80 + n / 0x1000 % 0x40, 0x80 + n / 0x40 % 0x40, 0x80 + n % 0x40]).map UInt8.ofNat

/-- `Buffer.from(text, 'utf8')`. -/
def encode (text : JsString) : List UInt8 := (JsString.scalars text).flatMap encodeChar

/-- Between two characters; no byte order mark is left out. -/
def between : TextDecoder := { bomSeen := true }

/-- `buffer.toString('utf8')`. -/
def decode (bytes : List UInt8) : JsString :=
  JsString.ofChars ((between.decode bytes).1 ++ (between.decode bytes).2.flush)

example : decode (encode [0x41, 0xE9, 0xD83D, 0xDE00, 0xD800, 0x0A]) = [0x41, 0xE9, 0xD83D, 0xDE00, 0xFFFD, 0x0A]
    ∧ decode [0xF0, 0x9F, 0x98, 0x0A] = [0xFFFD, 0x0A] := by decide

/-- Within a character, of which `seen` bytes have come after the first. -/
def within (codePoint needed seen lower upper : Nat) : TextDecoder :=
  { codePoint, bytesNeeded := needed, bytesSeen := seen, lowerBoundary := lower, upperBoundary := upper
    bomSeen := true }

section Decoder

variable {n codePoint needed seen lower upper : Nat}

theorem step_ascii (h : n < 0x80) : between.step n = ([Char.ofNat n], between) := by
  have first : between.step n = between.first n := rfl
  rw [first, TextDecoder.first, if_pos (by omega)]
  rfl

/-- A byte that the character needs. -/
theorem step_within (some : needed ≠ 0) (low : lower ≤ n) (high : n ≤ upper) :
    (within codePoint needed seen lower upper).step n
      = if seen + 1 = needed then ([Char.ofNat (codePoint * 0x40 + n % 0x40)], between)
        else ([], within (codePoint * 0x40 + n % 0x40) needed (seen + 1) 0x80 0xBF) := by
  have inRange : ¬ (decide (n < (within codePoint needed seen lower upper).lowerBoundary)
      || decide ((within codePoint needed seen lower upper).upperBoundary < n)) = true := by
    rw [Bool.or_eq_true, decide_eq_true_eq, decide_eq_true_eq]
    exact fun out => out.elim (Nat.not_lt.mpr low) (Nat.not_lt.mpr high)
  have more : (within codePoint needed seen lower upper).bytesNeeded ≠ 0 := some
  rw [TextDecoder.step, if_neg more, if_neg inRange]
  rfl

theorem step_last (more : seen + 1 = needed) (low : lower ≤ n) (high : n ≤ upper) :
    (within codePoint needed seen lower upper).step n
      = ([Char.ofNat (codePoint * 0x40 + n % 0x40)], between) := by
  rw [step_within (by omega) low high, if_pos more]

theorem step_more (more : seen + 1 < needed) (low : lower ≤ n) (high : n ≤ upper) :
    (within codePoint needed seen lower upper).step n
      = ([], within (codePoint * 0x40 + n % 0x40) needed (seen + 1) 0x80 0xBF) := by
  rw [step_within (by omega) low high, if_neg (Nat.ne_of_lt more)]

theorem step_first₂ (low : 0xC2 ≤ n) (high : n ≤ 0xDF) :
    between.step n = ([], within (n % 0x20) 1 0 0x80 0xBF) := by
  have first : between.step n = between.first n := rfl
  rw [first, TextDecoder.first, if_neg (by omega), if_pos (by simp only [Bool.and_eq_true, decide_eq_true_eq]; omega)]
  rfl

theorem step_first₃ (low : 0xE0 ≤ n) (high : n ≤ 0xEF) :
    between.step n = ([], within (n % 0x10) 2 0 (if n = 0xE0 then 0xA0 else 0x80)
      (if n = 0xED then 0x9F else 0xBF)) := by
  have first : between.step n = between.first n := rfl
  rw [first, TextDecoder.first, if_neg (by omega), if_neg (by simp only [Bool.and_eq_true, decide_eq_true_eq]; omega),
    if_pos (by simp only [Bool.and_eq_true, decide_eq_true_eq]; omega)]
  rfl

theorem step_first₄ (low : 0xF0 ≤ n) (high : n ≤ 0xF4) :
    between.step n = ([], within (n % 0x08) 3 0 (if n = 0xF0 then 0x90 else 0x80)
      (if n = 0xF4 then 0x8F else 0xBF)) := by
  have first : between.step n = between.first n := rfl
  rw [first, TextDecoder.first, if_neg (by omega), if_neg (by simp only [Bool.and_eq_true, decide_eq_true_eq]; omega),
    if_neg (by simp only [Bool.and_eq_true, decide_eq_true_eq]; omega),
    if_pos (by simp only [Bool.and_eq_true, decide_eq_true_eq]; omega)]
  rfl

theorem decode_cons (d : TextDecoder) {n : Nat} (small : n < 0x100) (bytes : List UInt8) :
    d.decode (UInt8.ofNat n :: bytes)
      = ((d.step n).1 ++ ((d.step n).2.decode bytes).1, ((d.step n).2.decode bytes).2) := by
  rw [TextDecoder.decode, UInt8.toNat_ofNat_of_lt' small]

/-- A character is read as it was written. -/
theorem decode_encodeChar (c : Char) : between.decode (encodeChar c) = ([c], between) := by
  have valid : c.toNat < 0xD800 ∨ 0xDFFF < c.toNat ∧ c.toNat < 0x110000 := c.valid
  have whole : ∀ m, m = c.toNat → Char.ofNat m = c := fun m same => by rw [same, Char.ofNat_toNat]
  unfold encodeChar
  dsimp only
  split
  · rw [List.map_singleton, decode_cons _ (by omega), step_ascii (by omega), whole _ rfl]
    rfl
  · split
    · simp only [List.map_cons, List.map_nil]
      rw [decode_cons _ (by omega), step_first₂ (by omega) (by omega), decode_cons _ (by omega),
        step_last rfl (by omega) (by omega), whole _ (by omega)]
      rfl
    · split
      · simp only [List.map_cons, List.map_nil]
        rw [decode_cons _ (by omega), step_first₃ (by omega) (by omega), decode_cons _ (by omega),
          step_more (by omega) (by split <;> omega) (by split <;> omega), decode_cons _ (by omega),
          step_last rfl (by omega) (by omega), whole _ (by omega)]
        rfl
      · simp only [List.map_cons, List.map_nil]
        rw [decode_cons _ (by omega), step_first₄ (by omega) (by omega), decode_cons _ (by omega),
          step_more (by omega) (by split <;> omega) (by split <;> omega), decode_cons _ (by omega),
          step_more (by omega) (by omega) (by omega), decode_cons _ (by omega),
          step_last rfl (by omega) (by omega), whole _ (by omega)]
        rfl

theorem decode_chars (chars : List Char) (bytes : List UInt8) :
    between.decode (chars.flatMap encodeChar ++ bytes)
      = (chars ++ (between.decode bytes).1, (between.decode bytes).2) := by
  induction chars with
  | nil => rfl
  | cons c chars ih =>
      rw [List.flatMap_cons, List.append_assoc, TextDecoder.decode_append, decode_encodeChar, ih]
      rfl

/-- What is known of a decoder wherever it is in a text. -/
structure Reached (d : TextDecoder) : Prop where
  bomSeen : d.bomSeen = true
  lower : 0x80 ≤ d.lowerBoundary
  between : d.bytesNeeded = 0 → d = between

theorem reached_between : Reached between := ⟨rfl, Nat.le_refl _, fun _ => rfl⟩

theorem reached_within (some : needed ≠ 0) (low : 0x80 ≤ lower) :
    Reached (within codePoint needed seen lower upper) :=
  ⟨rfl, low, fun none => absurd none some⟩

theorem reached_first (n : Nat) : Reached (between.first n).2 := by
  unfold TextDecoder.first
  split
  · exact reached_between
  · split
    · exact reached_within (by decide) (by decide)
    · split
      · exact reached_within (by decide) (by split <;> decide)
      · split
        · exact reached_within (by decide) (by split <;> decide)
        · exact reached_between

theorem Reached.reset {d : TextDecoder} (h : Reached d) : d.reset = Utf8.between := by
  rw [TextDecoder.reset, h.bomSeen]
  rfl

/-- A byte that the character cannot have is read as the first byte of the next one. -/
theorem Reached.step_broken {d : TextDecoder} (h : Reached d) (some : d.bytesNeeded ≠ 0)
    (out : n < d.lowerBoundary ∨ d.upperBoundary < n) :
    d.step n = (TextDecoder.replacement :: (Utf8.between.first n).1, (Utf8.between.first n).2) := by
  rw [TextDecoder.step, if_neg some, if_pos (by rwa [Bool.or_eq_true, decide_eq_true_eq, decide_eq_true_eq]),
    h.reset]
  rfl

theorem Reached.step {d : TextDecoder} (h : Reached d) (n : Nat) : Reached (d.step n).2 := by
  by_cases none : d.bytesNeeded = 0
  · rw [h.between none]
    exact reached_first n
  · by_cases out : n < d.lowerBoundary ∨ d.upperBoundary < n
    · rw [h.step_broken none out]
      exact reached_first n
    · rw [TextDecoder.step, if_neg none,
        if_neg (by rwa [Bool.or_eq_true, decide_eq_true_eq, decide_eq_true_eq])]
      dsimp only
      split
      · rw [h.reset]
        exact reached_between
      · exact ⟨h.bomSeen, Nat.le_refl _, fun zero => absurd zero none⟩

theorem Reached.decode {d : TextDecoder} (h : Reached d) (bytes : List UInt8) : Reached (d.decode bytes).2 := by
  induction bytes generalizing d with
  | nil => exact h
  | cons byte bytes ih => exact ih (h.step byte.toNat)

/-- A line feed ends what was begun. -/
theorem Reached.step_lineFeed {d : TextDecoder} (h : Reached d) :
    ∃ broken, d.step 0x0A = (broken ++ ['\n'], Utf8.between) := by
  by_cases none : d.bytesNeeded = 0
  · rw [h.between none]
    exact ⟨[], rfl⟩
  · have low := h.lower
    exact ⟨[TextDecoder.replacement], h.step_broken none (.inl (by omega))⟩

end Decoder

section Texts

variable {text : JsString} {u v : List UInt8}

theorem ofChars_append (a b : List Char) : JsString.ofChars (a ++ b) = JsString.ofChars a ++ JsString.ofChars b :=
  List.flatMap_append

/-- What was written is read, and then what comes behind it. -/
theorem decode_encode_append (text : JsString) (bytes : List UInt8) :
    decode (encode text ++ bytes) = JsString.ofChars (JsString.scalars text) ++ decode bytes := by
  rw [decode, encode, decode_chars, decode, ← ofChars_append, List.append_assoc]

/-- What comes behind a line feed is read as if nothing stood before it. -/
theorem decode_lineFeed (u v : List UInt8) :
    ∃ before, decode (u ++ 0x0A :: v) = before ++ codeUnit '\n' :: decode v := by
  obtain ⟨broken, step⟩ := (reached_between.decode u).step_lineFeed
  refine ⟨JsString.ofChars ((between.decode u).1 ++ broken), ?_⟩
  have line : (between.decode u).2.decode (0x0A :: v)
      = (broken ++ '\n' :: (between.decode v).1, (between.decode v).2) := by
    rw [TextDecoder.decode]
    have byte : (0x0A : UInt8).toNat = 0x0A := rfl
    rw [byte, step]
    simp
  rw [decode, TextDecoder.decode_append, line, decode]
  simp only [ofChars_append, List.append_assoc]
  rfl

end Texts

end Utf8

namespace JsString

section Scalars

variable {text u v : JsString} {c : CodeUnit}

theorem isHighSurrogate_iff (c : CodeUnit) :
    isHighSurrogate c = true ↔ 0xD800 ≤ c.toNat ∧ c.toNat ≤ 0xDBFF := by
  rw [isHighSurrogate, Bool.and_eq_true, decide_eq_true_eq, decide_eq_true_eq, UInt16.le_iff_toNat_le,
    UInt16.le_iff_toNat_le]
  rfl

theorem isLowSurrogate_iff (c : CodeUnit) :
    isLowSurrogate c = true ↔ 0xDC00 ≤ c.toNat ∧ c.toNat ≤ 0xDFFF := by
  rw [isLowSurrogate, Bool.and_eq_true, decide_eq_true_eq, decide_eq_true_eq, UInt16.le_iff_toNat_le,
    UInt16.le_iff_toNat_le]
  rfl

theorem codePoints_cons (h : isHighSurrogate c = false) (text : JsString) :
    codePoints (c :: text) = [c] :: codePoints text := by
  cases text with
  | nil => rfl
  | cons next text =>
      rw [codePoints, if_neg]
      rw [h]
      exact fun both => Bool.false_ne_true both.1

/-- A text is cut before a unit that is no second half of a pair. -/
theorem codePoints_append (h : isLowSurrogate c = false) (u v : JsString) :
    codePoints (u ++ c :: v) = codePoints u ++ codePoints (c :: v) := by
  have alone : ∀ high, ¬ (isHighSurrogate high = true ∧ isLowSurrogate c = true) := fun high both => by
    rw [h] at both
    exact Bool.false_ne_true both.2
  induction u using codePoints.induct with
  | case1 high low u pair ih =>
      rw [List.cons_append, List.cons_append, codePoints, if_pos pair, ih, codePoints, if_pos pair]
      rfl
  | case2 high low u single ih =>
      rw [List.cons_append, List.cons_append, codePoints, if_neg single]
      rw [List.cons_append] at ih
      rw [ih, codePoints, if_neg single]
      rfl
  | case3 high =>
      have single : codePoints [high] = [[high]] := rfl
      rw [List.singleton_append, codePoints, if_neg (alone high), single, List.singleton_append]
  | case4 => exact (List.nil_append (codePoints (c :: v))).symm

/-- The character of a unit that is no surrogate. -/
theorem scalars_append (high : isHighSurrogate c = false) (low : isLowSurrogate c = false) (u v : JsString) :
    scalars (u ++ c :: v) = scalars u ++ Char.ofNat c.toNat :: scalars v := by
  rw [scalars, codePoints_append low, codePoints_cons high, List.map_append, List.map_cons, scalar, if_neg]
  · rfl
  · rw [high, low]
    exact fun some => some.elim Bool.false_ne_true Bool.false_ne_true

theorem scalars_units (c : Char) (text : JsString) : scalars (Char.units c ++ text) = c :: scalars text := by
  have valid : c.toNat < 0xD800 ∨ 0xDFFF < c.toNat ∧ c.toNat < 0x110000 := c.valid
  unfold Char.units
  split
  · rename_i small
    have unit : (UInt16.ofNat c.toNat).toNat = c.toNat := UInt16.toNat_ofNat_of_lt' small
    have high : isHighSurrogate (UInt16.ofNat c.toNat) = false := by
      rw [Bool.eq_false_iff, Ne, isHighSurrogate_iff, unit]
      omega
    have low : isLowSurrogate (UInt16.ofNat c.toNat) = false := by
      rw [Bool.eq_false_iff, Ne, isLowSurrogate_iff, unit]
      omega
    have none : scalars [] = [] := rfl
    have single := scalars_append high low [] text
    rw [List.nil_append, none, List.nil_append, unit, Char.ofNat_toNat] at single
    rw [List.singleton_append]
    exact single
  · rename_i large
    have whole : 0x10000 + (0xD800 + (c.toNat - 0x10000) / 0x400 - 0xD800) * 0x400
        + (0xDC00 + (c.toNat - 0x10000) % 0x400 - 0xDC00) = c.toNat := by omega
    have high : (UInt16.ofNat (0xD800 + (c.toNat - 0x10000) / 0x400)).toNat
        = 0xD800 + (c.toNat - 0x10000) / 0x400 :=
      UInt16.toNat_ofNat_of_lt' (Nat.lt_of_lt_of_le (m := 0xE000) (by omega) (by decide))
    have low : (UInt16.ofNat (0xDC00 + (c.toNat - 0x10000) % 0x400)).toNat
        = 0xDC00 + (c.toNat - 0x10000) % 0x400 :=
      UInt16.toNat_ofNat_of_lt' (Nat.lt_of_lt_of_le (m := 0xE000) (by omega) (by decide))
    have pair := (isHighSurrogate_iff _).mpr (by rw [high]; omega)
    have pair' := (isLowSurrogate_iff _).mpr (by rw [low]; omega)
    have char : codePoint (UInt16.ofNat (0xD800 + (c.toNat - 0x10000) / 0x400))
        (UInt16.ofNat (0xDC00 + (c.toNat - 0x10000) % 0x400)) = c.toNat := by
      unfold codePoint
      rw [high, low]
      exact whole
    rw [List.cons_append, List.singleton_append, scalars, codePoints, if_pos ⟨pair, pair'⟩, List.map_cons,
      scalar, char, Char.ofNat_toNat, scalars]

/-- A text of characters, and what comes behind it. -/
theorem scalars_ofChars_append (chars : List Char) (text : JsString) :
    scalars (ofChars chars ++ text) = chars ++ scalars text := by
  induction chars with
  | nil => rfl
  | cons c chars ih =>
      rw [ofChars, List.flatMap_cons, List.append_assoc, scalars_units, ← ofChars, ih]
      rfl

theorem scalars_ofChars (chars : List Char) : scalars (ofChars chars) = chars := by
  rw [← List.append_nil (ofChars chars), scalars_ofChars_append]
  exact List.append_nil chars

theorem utf16_injective {s t : String} (same : utf16 s = utf16 t) : s = t := by
  have chars : s.toList = t.toList := by
    rw [← scalars_ofChars s.toList, ← scalars_ofChars t.toList]
    exact congrArg scalars same
  exact String.toList_inj.mp chars

end Scalars

section WellFormed

variable {text u v : JsString} {c : CodeUnit}

theorem WellFormed.append (hu : WellFormed u) (hv : WellFormed v) : WellFormed (u ++ v) := by
  obtain ⟨a, rfl⟩ := hu
  obtain ⟨b, rfl⟩ := hv
  exact ⟨a ++ b, (Utf8.ofChars_append a b).symm⟩

theorem wellFormed_nil : WellFormed [] := ⟨[], rfl⟩

theorem wellFormed_singleton (high : isHighSurrogate c = false) (low : isLowSurrogate c = false) :
    WellFormed [c] := by
  have valid : c.toNat.isValidChar := by
    rw [Bool.eq_false_iff, Ne, isHighSurrogate_iff] at high
    rw [Bool.eq_false_iff, Ne, isLowSurrogate_iff] at low
    have small := c.toNat_lt
    unfold Nat.isValidChar
    omega
  have char : (Char.ofNat c.toNat).toNat = c.toNat := by
    rw [Char.ofNat, dif_pos valid]
    rfl
  refine ⟨[Char.ofNat c.toNat], ?_⟩
  rw [ofChars, List.flatMap_singleton, Char.units, char, if_pos c.toNat_lt, UInt16.ofNat_toNat]

theorem wellFormed_utf16 (text : String) : WellFormed (utf16 text) := ⟨text.toList, rfl⟩

/-- What is written of a text, and read again. -/
theorem WellFormed.ofChars_scalars_append (h : WellFormed u) (v : JsString) :
    ofChars (scalars (u ++ v)) = u ++ ofChars (scalars v) := by
  obtain ⟨chars, rfl⟩ := h
  rw [scalars_ofChars_append, Utf8.ofChars_append]

end WellFormed

end JsString

end GhcpConsole
