import GhcpConsole.Lib.Deciding
import Mathlib.Data.List.TakeWhile
import Mathlib.Algebra.GroupWithZero.Nat

/-!
# Operations on texts

Texts are lists of characters. What a text is measured in is the number of its UTF-16 units.
-/

namespace GhcpConsole

/-- The white space and line terminators that `String.prototype.trim` removes. -/
def isTrimmed (c : Char) : Bool :=
  let n := c.toNat
  (9 ≤ n && n ≤ 13) || n == 0x20 || n == 0xA0 || n == 0x1680 || (0x2000 ≤ n && n ≤ 0x200A)
    || n == 0x2028 || n == 0x2029 || n == 0x202F || n == 0x205F || n == 0x3000 || n == 0xFEFF

/-- What `.` of a regular expression does not match. -/
def isLineTerminator (c : Char) : Bool :=
  c = '\n' || c = '\r' || c = '\u2028' || c = '\u2029'

def trimStart (text : List Char) : List Char := text.dropWhile isTrimmed

def trimEnd (text : List Char) : List Char := (text.reverse.dropWhile isTrimmed).reverse

def trim (text : List Char) : List Char := trimEnd (trimStart text)

/-- `text.split(/\r?\n/)`. -/
def splitLines : List Char → List (List Char)
  | [] => [[]]
  | '\n' :: text => [] :: splitLines text
  | '\r' :: '\n' :: text => [] :: splitLines text
  | c :: text =>
      match splitLines text with
      | line :: lines => (c :: line) :: lines
      | [] => [[c]]

/-- `lines.join('\n')`. -/
def joinLines (lines : List (List Char)) : List Char := ['\n'].intercalate lines

/-- `text.length`. -/
def utf16Length (text : List Char) : Nat :=
  (text.map fun c => if c.toNat ≤ 0xFFFF then 1 else 2).sum

section Trim

variable {u v : List Char}

theorem trim_eq_nil : trim u = [] ↔ ∀ c ∈ u, isTrimmed c = true := by
  have hend : trimEnd (trimStart u) = [] ↔ ∀ c ∈ trimStart u, isTrimmed c = true := by
    rw [trimEnd, List.reverse_eq_nil_iff, List.dropWhile_eq_nil_iff]
    simp only [List.mem_reverse]
  rw [trim, hend]
  refine ⟨fun h c hc => ?_, fun h c hc => h c ((List.dropWhile_sublist _).mem hc)⟩
  rw [← List.takeWhile_append_dropWhile (p := isTrimmed) (l := u), List.mem_append] at hc
  rcases hc with hc | hc
  · exact List.mem_takeWhile_imp hc
  · exact h c hc

theorem mem_dropWhile {c : Char} (hc : c ∈ u) (hkeep : isTrimmed c = false) : c ∈ u.dropWhile isTrimmed := by
  rw [← List.takeWhile_append_dropWhile (p := isTrimmed) (l := u), List.mem_append] at hc
  rcases hc with hc | hc
  · rw [List.mem_takeWhile_imp hc] at hkeep
    cases hkeep
  · exact hc

theorem mem_trim {c : Char} (hc : c ∈ u) (hkeep : isTrimmed c = false) : c ∈ trim u := by
  rw [trim, trimEnd, List.mem_reverse]
  exact mem_dropWhile (List.mem_reverse.mpr (mem_dropWhile hc hkeep)) hkeep

/-- What is cut off at the end is white space. -/
theorem exists_trimEnd (u : List Char) :
    ∃ space, (∀ c ∈ space, isTrimmed c = true) ∧ u = trimEnd u ++ space := by
  refine ⟨(u.reverse.takeWhile isTrimmed).reverse, fun c mem => ?_, ?_⟩
  · exact List.mem_takeWhile_imp (List.mem_reverse.mp mem)
  · rw [trimEnd, ← List.reverse_append, List.takeWhile_append_dropWhile, List.reverse_reverse]

theorem trimEnd_isPrefix (u : List Char) : trimEnd u <+: u := by
  obtain ⟨space, _, split⟩ := exists_trimEnd u
  exact ⟨space, split.symm⟩

theorem trim_isInfix : trim u <:+: u :=
  (trimEnd_isPrefix _).isInfix.trans (List.dropWhile_suffix _).isInfix

theorem head?_trimStart : ∀ c ∈ (trimStart u).head?, isTrimmed c = false := by
  intro c first
  have kept := List.head?_dropWhile_not isTrimmed u
  rw [show u.dropWhile isTrimmed = trimStart u from rfl, Option.mem_def.mp first] at kept
  simpa using kept

theorem trimStart_eq_self (h : ∀ c ∈ u.head?, isTrimmed c = false) : trimStart u = u := by
  cases u with
  | nil => rfl
  | cons c u => rw [trimStart, List.dropWhile_cons, if_neg (by simp [h c rfl])]

theorem trimEnd_eq_self (h : ∀ c ∈ u.getLast?, isTrimmed c = false) : trimEnd u = u := by
  rw [trimEnd, ← List.reverse_inj, List.reverse_reverse]
  exact trimStart_eq_self fun c first => h c (by rwa [List.head?_reverse] at first)

/-- A text that has been trimmed stays as it is. -/
theorem trim_trim : trim (trim u) = trim u := by
  have last : ∀ c ∈ (trim u).getLast?, isTrimmed c = false := by
    intro c isLast
    rw [trim, trimEnd, List.getLast?_reverse] at isLast
    exact head?_trimStart c isLast
  have first : ∀ c ∈ (trim u).head?, isTrimmed c = false := by
    intro c isFirst
    obtain ⟨rest, starts⟩ : trim u <+: trimStart u := trimEnd_isPrefix _
    have inStart : c ∈ (trimStart u).head? := by
      rw [← starts, List.head?_append, Option.mem_def.mp isFirst]
      rfl
    exact head?_trimStart c inStart
  rw [trim, trimStart_eq_self first, trimEnd_eq_self last]

/-- What is left of a text has a character that is not white space. -/
theorem exists_mem_trim (h : trim u ≠ []) : ∃ c ∈ trim u, isTrimmed c = false := by
  by_contra hnone
  refine h (trim_eq_nil.mpr fun c hc => ?_)
  by_contra hkeep
  rw [Bool.not_eq_true] at hkeep
  exact hnone ⟨c, mem_trim hc hkeep, hkeep⟩

end Trim

section Length

variable {u v : List Char}

theorem utf16Length_append : utf16Length (u ++ v) = utf16Length u + utf16Length v := by
  rw [utf16Length, List.map_append, List.sum_append]
  rfl

theorem utf16Length_le_of_prefix (h : u <+: v) : utf16Length u ≤ utf16Length v := by
  obtain ⟨w, rfl⟩ := h
  rw [utf16Length_append]
  omega

end Length

end GhcpConsole
