import GhcpConsole.Lib.Deciding
import Mathlib.Data.List.Infix
import Mathlib.Data.List.TakeWhile

/-!
# Texts of UTF-16 code units

A text of the language is any list of code units: half of a surrogate pair can stand alone in it.
-/

namespace GhcpConsole

abbrev CodeUnit := UInt16

abbrev JsString := List CodeUnit

/-- The code units of a character. -/
def Char.units (c : Char) : JsString :=
  if c.toNat < 0x10000 then [UInt16.ofNat c.toNat]
  else [UInt16.ofNat (0xD800 + (c.toNat - 0x10000) / 0x400),
    UInt16.ofNat (0xDC00 + (c.toNat - 0x10000) % 0x400)]

def utf16 (text : String) : JsString := text.toList.flatMap Char.units

example : utf16 "é😀" = [0xE9, 0xD83D, 0xDE00] := by decide

/-- The code unit of a character below U+10000. -/
def codeUnit (c : Char) : CodeUnit := UInt16.ofNat c.toNat

def isHighSurrogate (u : CodeUnit) : Bool := 0xD800 ≤ u && u ≤ 0xDBFF

def isLowSurrogate (u : CodeUnit) : Bool := 0xDC00 ≤ u && u ≤ 0xDFFF

/-- What `^` and `$` stand next to where the flag `m` is set. -/
def endsLine (u : CodeUnit) : Bool := u = 0xA || u = 0xD || u = 0x2028 || u = 0x2029

/-- The white space and line terminators that `\\s` matches and `String.prototype.trim` removes. -/
def isWhiteSpace (u : CodeUnit) : Bool :=
  (9 ≤ u && u ≤ 13) || u = 0x20 || u = 0xA0 || u = 0x1680 || (0x2000 ≤ u && u ≤ 0x200A)
    || u = 0x2028 || u = 0x2029 || u = 0x202F || u = 0x205F || u = 0x3000 || u = 0xFEFF

/-- `toLowerCase` as far as ASCII letters go. -/
def lowerAscii (u : CodeUnit) : CodeUnit := if 0x41 ≤ u && u ≤ 0x5A then u + 0x20 else u

namespace JsString

def trimEnd (text : JsString) : JsString := (text.reverse.dropWhile isWhiteSpace).reverse

def trim (text : JsString) : JsString := trimEnd (text.dropWhile isWhiteSpace)

/-- `parts.join('\n')`. -/
def inLines (parts : List JsString) : JsString := (utf16 "\n").intercalate parts

/-- `text.replaceAll(c, by)`. -/
def replaceAll (c : CodeUnit) (replacement text : JsString) : JsString :=
  text.flatMap fun u => if u = c then replacement else [u]

section Trim

variable {u : CodeUnit} {text : JsString}

section
-- Generates the equations here, once for all the proofs below.
attribute [local simp] trimEnd trim
end

theorem prefix_trimEnd (text : JsString) : trimEnd text <+: text := by
  rw [trimEnd]
  exact List.reverse_suffix.mp (by rw [List.reverse_reverse]; exact List.dropWhile_suffix _)

theorem infix_trim (text : JsString) : trim text <:+: text :=
  (prefix_trimEnd _).isInfix.trans (List.dropWhile_suffix _).isInfix

/-- Only white space is trimmed. -/
theorem exists_trim (text : JsString) : ∃ before after, text = before ++ trim text ++ after
    ∧ (∀ u ∈ before, isWhiteSpace u = true) ∧ ∀ u ∈ after, isWhiteSpace u = true := by
  have back : ∀ text : JsString, text = trimEnd text ++ (text.reverse.takeWhile isWhiteSpace).reverse := by
    intro text
    rw [trimEnd, ← List.reverse_append, List.takeWhile_append_dropWhile, List.reverse_reverse]
  refine ⟨text.takeWhile isWhiteSpace, ((text.dropWhile isWhiteSpace).reverse.takeWhile isWhiteSpace).reverse, ?_,
    fun u => List.mem_takeWhile_imp, fun u mem => List.mem_takeWhile_imp (List.mem_reverse.mp mem)⟩
  rw [List.append_assoc, trim, ← back, List.takeWhile_append_dropWhile]

/-- A part between other characters than white space is still there. -/
theorem infix_trim_of_infix {part : JsString} (inText : part <:+: text)
    (first : ∀ u ∈ part.head?, isWhiteSpace u = false) (last : ∀ u ∈ part.getLast?, isWhiteSpace u = false) :
    part <:+: trim text := by
  obtain ⟨before, after, split, left, right⟩ := exists_trim text
  have beginsOther : ∀ front back, part = front ++ back → front <:+: before → front = [] := by
    rintro (_ | ⟨u, front⟩) back rfl inside
    · rfl
    · have white := left u (inside.subset List.mem_cons_self)
      rw [first u rfl] at white
      cases white
  have endsOther : ∀ front back, part = front ++ back → back <:+: after → back = [] := by
    intro front back whole inside
    rcases List.eq_nil_or_concat' back with rfl | ⟨back, u, rfl⟩
    · rfl
    · have white := right u (inside.subset (by simp))
      rw [last u (by simp [whole])] at white
      cases white
  rw [split, List.append_assoc] at inText
  rcases List.infix_append_iff_ne_nil.mp inText with inside | inText | ⟨front, back, some, _, whole, inside, _⟩
  · rw [beginsOther part [] (List.append_nil _).symm inside]
    exact List.nil_infix
  · rcases List.infix_append_iff_ne_nil.mp inText with inside | inside | ⟨front, back, _, some, whole, _, inside⟩
    · exact inside
    · rw [endsOther [] part rfl inside]
      exact List.nil_infix
    · exact absurd (endsOther front back whole inside.isInfix) some
  · exact absurd (beginsOther front back whole inside.isInfix) some

theorem head?_trim_of (some : trim text ≠ []) (first : ∀ u ∈ text.head?, isWhiteSpace u = false) :
    (trim text).head? = text.head? := by
  obtain ⟨before, after, split, left, _⟩ := exists_trim text
  cases before with
  | nil =>
      conv_rhs => rw [split]
      rw [List.nil_append, List.head?_append_of_ne_nil _ some]
  | cons u before =>
      have white := left u List.mem_cons_self
      rw [first u (by rw [split]; rfl)] at white
      cases white

theorem getLast?_trim_of (some : trim text ≠ []) (last : ∀ u ∈ text.getLast?, isWhiteSpace u = false) :
    (trim text).getLast? = text.getLast? := by
  obtain ⟨before, after, split, _, right⟩ := exists_trim text
  rcases List.eq_nil_or_concat' after with rfl | ⟨after, u, rfl⟩
  · conv_rhs => rw [split]
    rw [List.append_nil, List.getLast?_append_of_ne_nil _ some]
  · have white := right u (by simp)
    rw [last u (by rw [split, ← List.append_assoc]; simp)] at white
    cases white

theorem dropWhile_eq_self (h : ∀ u ∈ text.head?, isWhiteSpace u = false) : text.dropWhile isWhiteSpace = text := by
  cases text with
  | nil => rfl
  | cons u text => rw [List.dropWhile_cons, if_neg (by simp [h u rfl])]

theorem trim_eq_self (first : ∀ u ∈ text.head?, isWhiteSpace u = false)
    (last : ∀ u ∈ text.getLast?, isWhiteSpace u = false) : trim text = text := by
  rw [trim, trimEnd, dropWhile_eq_self first, dropWhile_eq_self, List.reverse_reverse]
  rwa [List.head?_reverse]

theorem head?_trim (mem : u ∈ (trim text).head?) : isWhiteSpace u = false := by
  obtain ⟨rest, whole⟩ : trim text <+: text.dropWhile isWhiteSpace := prefix_trimEnd _
  have kept := List.head?_dropWhile_not isWhiteSpace text
  rw [← whole, List.head?_append, Option.mem_def.mp mem] at kept
  simpa using kept

theorem getLast?_trim (mem : u ∈ (trim text).getLast?) : isWhiteSpace u = false := by
  rw [trim, trimEnd, List.getLast?_reverse] at mem
  have kept := List.head?_dropWhile_not isWhiteSpace (text.dropWhile isWhiteSpace).reverse
  rw [Option.mem_def.mp mem] at kept
  simpa using kept

end Trim

end JsString

section IndexOf

variable {α : Type} [DecidableEq α] {needle text u v : List α} {n : Nat}

/-- `text.indexOf(needle)`. -/
def indexOf (needle : List α) : List α → Option Nat
  | [] => if needle = [] then some 0 else none
  | c :: text => if needle <+: c :: text then some 0 else (indexOf needle text).map (· + 1)

section
-- Generates the equations here, once for all the proofs below.
attribute [local simp] indexOf
end

theorem indexOf_of_prefix (h : needle <+: text) : indexOf needle text = some 0 := by
  cases text with
  | nil => rw [indexOf, if_pos (List.prefix_nil.mp h)]
  | cons c text => rw [indexOf, if_pos h]

/-- The text before the occurrence found, and the one after it. -/
theorem exists_of_indexOf (h : indexOf needle text = some n) :
    ∃ u v, text = u ++ needle ++ v ∧ u.length = n := by
  induction text generalizing n with
  | nil =>
      rw [indexOf] at h
      split at h
      · rename_i empty
        cases h
        exact ⟨[], [], by rw [empty]; rfl, rfl⟩
      · cases h
  | cons c text ih =>
      rw [indexOf] at h
      split at h
      · rename_i first
        cases h
        obtain ⟨v, rest⟩ := first
        exact ⟨[], v, rest.symm, rfl⟩
      · obtain ⟨m, found, rfl⟩ := Option.map_eq_some_iff.mp h
        obtain ⟨u, v, rfl, length⟩ := ih found
        exact ⟨c :: u, v, rfl, by rw [List.length_cons, length]⟩

theorem indexOf_le (h : text = u ++ needle ++ v) : ∃ n ≤ u.length, indexOf needle text = some n := by
  subst h
  induction u with
  | nil => exact ⟨0, Nat.le_refl _, indexOf_of_prefix ⟨v, rfl⟩⟩
  | cons c u ih =>
      obtain ⟨n, hn, found⟩ := ih
      rw [List.cons_append, List.cons_append, indexOf, found, Option.map_some]
      split
      · exact ⟨0, Nat.zero_le _, rfl⟩
      · exact ⟨n + 1, Nat.succ_le_succ hn, rfl⟩

theorem indexOf_singleton {c : α} (h : c ∉ u) : indexOf [c] (u ++ c :: v) = some u.length := by
  induction u with
  | nil => exact indexOf_of_prefix ⟨v, rfl⟩
  | cons d u ih =>
      rw [List.mem_cons, not_or] at h
      have other : ¬ [c] <+: d :: (u ++ c :: v) := fun first => h.1 (List.cons_prefix_cons.mp first).1
      rw [List.cons_append, indexOf, if_neg other, ih h.2, Option.map_some, List.length_cons]

theorem exists_of_indexOf_singleton {c : α} (h : indexOf [c] text = some n) :
    ∃ u v, text = u ++ c :: v ∧ u.length = n ∧ c ∉ u := by
  have mem : c ∈ text := by
    obtain ⟨u, v, rfl, _⟩ := exists_of_indexOf h
    simp
  obtain ⟨u, v, rfl, first⟩ := List.eq_append_cons_of_mem mem
  rw [indexOf_singleton first] at h
  exact ⟨u, v, rfl, Option.some.inj h, first⟩

end IndexOf

end GhcpConsole
