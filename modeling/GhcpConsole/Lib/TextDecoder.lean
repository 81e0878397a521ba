import GhcpConsole.Lib.Deciding
import Mathlib.Data.List.Basic

/-!
# Decoding UTF-8 as it arrives

The streaming decoder of the Encoding standard: a machine over bytes. What is not UTF-8 becomes
U+FFFD, and the byte that breaks a sequence is read again as the first byte of the next one. A byte
order mark at the start is left out.
-/

namespace GhcpConsole

structure TextDecoder where
  codePoint : Nat := 0
  bytesNeeded : Nat := 0
  bytesSeen : Nat := 0
  lowerBoundary : Nat := 0x80
  upperBoundary : Nat := 0xBF
  bomSeen : Bool := false
deriving DecidableEq, Repr

namespace TextDecoder

def replacement : Char := '\uFFFD'

/-- A sequence of `needed` more bytes begins; the next one is between the boundaries. -/
def begin (d : TextDecoder) (codePoint needed lower upper : Nat) : TextDecoder :=
  { d with codePoint, bytesNeeded := needed, lowerBoundary := lower, upperBoundary := upper }

/-- Between two sequences. -/
def reset (d : TextDecoder) : TextDecoder := { bomSeen := d.bomSeen }

/-- A character is put out, except a byte order mark as the first one. -/
def emit (d : TextDecoder) (c : Char) : List Char × TextDecoder :=
  (if !d.bomSeen && c.toNat == 0xFEFF then [] else [c], { d with bomSeen := true })

/-- The first byte of a sequence. -/
def first (d : TextDecoder) (byte : Nat) : List Char × TextDecoder :=
  if byte ≤ 0x7F then d.emit (Char.ofNat byte)
  else if 0xC2 ≤ byte && byte ≤ 0xDF then ([], d.begin (byte % 0x20) 1 0x80 0xBF)
  else if 0xE0 ≤ byte && byte ≤ 0xEF then
    ([], d.begin (byte % 0x10) 2 (if byte = 0xE0 then 0xA0 else 0x80)
      (if byte = 0xED then 0x9F else 0xBF))
  else if 0xF0 ≤ byte && byte ≤ 0xF4 then
    ([], d.begin (byte % 0x08) 3 (if byte = 0xF0 then 0x90 else 0x80)
      (if byte = 0xF4 then 0x8F else 0xBF))
  else d.emit replacement

def step (d : TextDecoder) (byte : Nat) : List Char × TextDecoder :=
  if d.bytesNeeded = 0 then d.first byte
  else if byte < d.lowerBoundary || d.upperBoundary < byte then
    let (broken, d) := d.reset.emit replacement
    let (text, d) := d.first byte
    (broken ++ text, d)
  else
    let codePoint := d.codePoint * 0x40 + byte % 0x40
    if d.bytesSeen + 1 = d.bytesNeeded then d.reset.emit (Char.ofNat codePoint)
    else ([], { d with codePoint, bytesSeen := d.bytesSeen + 1, lowerBoundary := 0x80,
                       upperBoundary := 0xBF })

/-- `decode(chunk, { stream: true })`. -/
def decode (d : TextDecoder) : List UInt8 → List Char × TextDecoder
  | [] => ([], d)
  | byte :: chunk =>
      let (text, d) := d.step byte.toNat
      let (rest, d) := d.decode chunk
      (text ++ rest, d)

/-- `decode()`: a sequence that was begun is broken. -/
def flush (d : TextDecoder) : List Char := if d.bytesNeeded = 0 then [] else [replacement]

/-- The text of a whole stream. -/
def text (bytes : List UInt8) : List Char :=
  (({} : TextDecoder).decode bytes).1 ++ (({} : TextDecoder).decode bytes).2.flush

example : text [0x64, 0xC3, 0xA9, 0xE2, 0x82, 0x41, 0xF0, 0x9F, 0x98, 0x80]
    = ['d', 'é', '\uFFFD', 'A', '😀'] := by decide

section Fatal

/-- No sequence begins with the byte, or the one that was begun does not go on with it. -/
def breaks (d : TextDecoder) (byte : Nat) : Bool :=
  if d.bytesNeeded = 0 then 0x80 ≤ byte && byte < 0xC2 || 0xF4 < byte
  else byte < d.lowerBoundary || d.upperBoundary < byte

/-- With `fatal`, what is not UTF-8 is an error. -/
def fatalStep (d : TextDecoder) (byte : Nat) : Option (List Char × TextDecoder) :=
  if d.breaks byte then none else some (d.step byte)

/-- The text of all the bytes, with `fatal`. -/
def fatal (d : TextDecoder) : List UInt8 → Option (List Char)
  | [] => if d.bytesNeeded = 0 then some [] else none
  | byte :: bytes => (d.fatalStep byte.toNat).bind fun next => (next.2.fatal bytes).map (next.1 ++ ·)

example : ({} : TextDecoder).fatal [0xEF, 0xBB, 0xBF, 0xC3, 0xA9, 0x41] = some ['é', 'A']
    ∧ ({} : TextDecoder).fatal [0xC3, 0x41] = none := by decide

variable {d : TextDecoder} {byte : Nat}

/-- A byte that begins a sequence of its own, or one that the sequence needs. -/
theorem fatalStep_cases {next : List Char × TextDecoder} (h : d.fatalStep byte = some next) :
    (d.bytesNeeded = 0 ∧ byte ≤ 0x7F ∧ next = d.emit (Char.ofNat byte))
      ∨ (d.bytesNeeded = 0 ∧ next.1 = [] ∧ next.2.bytesNeeded ≠ 0)
      ∨ (d.bytesNeeded ≠ 0 ∧ ∃ c, next = d.reset.emit c)
      ∨ (d.bytesNeeded ≠ 0 ∧ next.1 = [] ∧ next.2.bytesNeeded = d.bytesNeeded) := by
  unfold fatalStep at h
  split at h
  · cases h
  · rename_i sound
    cases h
    unfold step
    unfold breaks at sound
    split at sound
    · rename_i between
      rw [if_pos between]
      simp only [Bool.or_eq_true, Bool.and_eq_true, decide_eq_true_eq, not_or, not_and] at sound
      unfold first
      split
      · rename_i ascii
        exact .inl ⟨between, ascii, rfl⟩
      · refine .inr (.inl ⟨between, ?_⟩)
        split
        · exact ⟨rfl, nofun⟩
        · split
          · exact ⟨rfl, nofun⟩
          · split
            · exact ⟨rfl, nofun⟩
            · simp only [Bool.and_eq_true, decide_eq_true_eq] at *
              omega
    · rename_i within
      rw [if_neg within, if_neg sound]
      dsimp only
      split
      · exact .inr (.inr (.inl ⟨within, _, rfl⟩))
      · exact .inr (.inr (.inr ⟨within, rfl, rfl⟩))

end Fatal

section Chunks

variable (d : TextDecoder) (u v : List UInt8)

theorem decode_append : d.decode (u ++ v)
    = ((d.decode u).1 ++ ((d.decode u).2.decode v).1, ((d.decode u).2.decode v).2) := by
  induction u generalizing d with
  | nil => rfl
  | cons byte u ih =>
      show ((d.step byte.toNat).1 ++ ((d.step byte.toNat).2.decode (u ++ v)).1,
        ((d.step byte.toNat).2.decode (u ++ v)).2) = _
      rw [ih]
      simp only [decode, List.append_assoc]

theorem flush_cases : d.flush = [] ∨ d.flush = [replacement] := by
  unfold flush
  split
  · exact .inl rfl
  · exact .inr rfl

end Chunks

end TextDecoder

end GhcpConsole
