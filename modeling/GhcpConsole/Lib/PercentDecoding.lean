import GhcpConsole.Lib.Deciding
import Mathlib.Data.List.Basic

/-!
# Percent-decoding

`decodeURIComponent`, which fails on a malformed escape, and the lenient decoding, which leaves a
malformed escape as it is. They agree where the first one succeeds (`lenientDecode_eq`). No escape
reaches across a character that is neither a percent sign nor a hexadecimal digit, so that what
stands on its own between two such characters is decoded on its own (`lenientDecode_append`).
-/

namespace GhcpConsole

def hexDigit (c : Char) : Option Nat :=
  if '0' ≤ c && c ≤ '9' then some (c.toNat - '0'.toNat)
  else if 'a' ≤ c && c ≤ 'f' then some (c.toNat - 'a'.toNat + 10)
  else if 'A' ≤ c && c ≤ 'F' then some (c.toNat - 'A'.toNat + 10)
  else none

/-- The bytes of the escapes a text begins with. -/
def escapedBytes : List Char → List Nat
  | percent :: high :: low :: text =>
      if percent = '%' then
        match hexDigit high, hexDigit low with
        | some high, some low => (16 * high + low) :: escapedBytes text
        | _, _ => []
      else []
  | _ => []

def isContinuation (byte : Nat) : Bool := 0x80 ≤ byte && byte ≤ 0xBF

/-- The code point at the front of a list of bytes, and the number of bytes that encode it. -/
def utf8Front : List Nat → Option (Char × Nat)
  | a :: bytes =>
      if a ≤ 0x7F then some (Char.ofNat a, 1)
      else if 0xC2 ≤ a && a ≤ 0xDF then
        match bytes with
        | b :: _ => if isContinuation b then some (Char.ofNat (a % 0x20 * 0x40 + b % 0x40), 2) else none
        | _ => none
      else if 0xE0 ≤ a && a ≤ 0xEF then
        match bytes with
        | b :: c :: _ =>
            if (if a = 0xE0 then 0xA0 else 0x80) ≤ b && b ≤ (if a = 0xED then 0x9F else 0xBF) &&
                isContinuation c then
              some (Char.ofNat ((a % 0x10 * 0x40 + b % 0x40) * 0x40 + c % 0x40), 3)
            else none
        | _ => none
      else if 0xF0 ≤ a && a ≤ 0xF4 then
        match bytes with
        | b :: c :: d :: _ =>
            if (if a = 0xF0 then 0x90 else 0x80) ≤ b && b ≤ (if a = 0xF4 then 0x8F else 0xBF) &&
                isContinuation c && isContinuation d then
              some (Char.ofNat
                (((a % 0x08 * 0x40 + b % 0x40) * 0x40 + c % 0x40) * 0x40 + d % 0x40), 4)
            else none
        | _ => none
      else none
  | [] => none

/-- The well-formed escape a text begins with: its character and its length. -/
def escapeAt (text : List Char) : Option (Char × Nat) :=
  (utf8Front (escapedBytes text)).map fun (c, bytes) => (c, 3 * bytes)

/-- `decodeURIComponent`, with `skip` characters of an escape still to be passed over. -/
def decodeFrom : Nat → List Char → Option (List Char)
  | _, [] => some []
  | skip + 1, _ :: text => decodeFrom skip text
  | 0, c :: text =>
      if c = '%' then
        match escapeAt (c :: text) with
        | some (decoded, length) => (decoded :: ·) <$> decodeFrom (length - 1) text
        | none => none
      else (c :: ·) <$> decodeFrom 0 text

/-- `none` is the `URIError`. -/
def decodeURIComponent (text : List Char) : Option (List Char) := decodeFrom 0 text

def lenientFrom : Nat → List Char → List Char
  | _, [] => []
  | skip + 1, _ :: text => lenientFrom skip text
  | 0, c :: text =>
      match escapeAt (c :: text) with
      | some (decoded, length) => decoded :: lenientFrom (length - 1) text
      | none => c :: lenientFrom 0 text

/-- Every well-formed escape is replaced, and a malformed one stays. -/
def lenientDecode (text : List Char) : List Char := lenientFrom 0 text

section
-- Generates the equations here, once for all the proofs below.
attribute [local simp] escapeAt lenientFrom decodeFrom escapedBytes utf8Front hexDigit
end

theorem escapeAt_eq_none {c : Char} (h : c ≠ '%') (text : List Char) : escapeAt (c :: text) = none := by
  have empty : escapedBytes (c :: text) = [] := by
    rcases text with _ | ⟨a, _ | ⟨b, text⟩⟩
    · rfl
    · rfl
    · rw [escapedBytes, if_neg h]
  rw [escapeAt, empty]
  rfl

theorem lenientFrom_eq : ∀ (text decoded : List Char) (skip : Nat),
    decodeFrom skip text = some decoded → lenientFrom skip text = decoded
  | [], decoded, _, h => by
      cases h
      rfl
  | _ :: text, decoded, skip + 1, h => lenientFrom_eq text decoded skip h
  | c :: text, decoded, 0, h => by
      rw [decodeFrom] at h
      split at h
      · cases found : escapeAt (c :: text) with
        | none => simp [found] at h
        | some escape =>
            simp only [found, Option.map_eq_map, Option.map_eq_some_iff] at h
            obtain ⟨rest, decodes, rfl⟩ := h
            simp only [lenientFrom, found, lenientFrom_eq text rest _ decodes]
      · rename_i plain
        simp only [Option.map_eq_map, Option.map_eq_some_iff] at h
        obtain ⟨rest, decodes, rfl⟩ := h
        rw [lenientFrom, escapeAt_eq_none plain, lenientFrom_eq text rest 0 decodes]

/-- Where no escape is malformed the two decodings agree. -/
theorem lenientDecode_eq {text decoded : List Char} (h : decodeURIComponent text = some decoded) :
    lenientDecode text = decoded :=
  lenientFrom_eq text decoded 0 h

/-! ## Escapes end before a plain character -/

/-- A character that is no part of an escape. -/
def isPlain (c : Char) : Bool := c ≠ '%' && (hexDigit c).isNone

section Plain

variable {c : Char} (plain : isPlain c = true) (rest : List Char)

include plain

theorem escapedBytes_append : ∀ text, escapedBytes (text ++ c :: rest) = escapedBytes text
  | [] => by
      have start : c ≠ '%' := by simpa using (Bool.and_eq_true_iff.mp plain).1
      rcases rest with _ | ⟨a, _ | ⟨b, rest⟩⟩
      · rfl
      · rfl
      · simp [escapedBytes, start]
  | [a] => by
      have digit : hexDigit c = none := by simpa using (Bool.and_eq_true_iff.mp plain).2
      cases rest with
      | nil => rfl
      | cons b rest => simp [escapedBytes, digit]
  | [a, b] => by
      have digit : hexDigit c = none := by simpa using (Bool.and_eq_true_iff.mp plain).2
      simp [escapedBytes, digit]
  | a :: b :: d :: text => by
      simp only [List.cons_append, escapedBytes, escapedBytes_append text]

theorem escapeAt_append (text : List Char) : escapeAt (text ++ c :: rest) = escapeAt text := by
  rw [escapeAt, escapedBytes_append plain, escapeAt]

end Plain

theorem length_escapedBytes : ∀ text, 3 * (escapedBytes text).length ≤ text.length
  | [] => by simp [escapedBytes]
  | [a] => by simp [escapedBytes]
  | [a, b] => by simp [escapedBytes]
  | a :: b :: d :: text => by
      have shorter := length_escapedBytes text
      rw [escapedBytes]
      split
      · split
        · simp only [List.length_cons]
          omega
        · simp
      · simp

theorem utf8Front_le {bytes : List Nat} {c : Char} {count : Nat} (h : utf8Front bytes = some (c, count)) :
    count ≤ bytes.length := by
  unfold utf8Front at h
  grind

/-- An escape ends within the text. -/
theorem escapeAt_le {text : List Char} {c : Char} {length : Nat} (h : escapeAt text = some (c, length)) :
    length ≤ text.length := by
  obtain ⟨⟨d, count⟩, front, same⟩ := Option.map_eq_some_iff.mp h
  cases same
  have bytes := utf8Front_le front
  have within := length_escapedBytes text
  omega

theorem lenientFrom_append {c : Char} (plain : isPlain c = true) (rest : List Char) :
    ∀ (text : List Char) (skip : Nat), skip ≤ text.length →
      lenientFrom skip (text ++ c :: rest) = lenientFrom skip text ++ c :: lenientFrom 0 rest
  | [], skip, within => by
      obtain rfl : skip = 0 := by simpa using within
      have start : c ≠ '%' := by simpa using (Bool.and_eq_true_iff.mp plain).1
      simp [lenientFrom, escapeAt_eq_none start]
  | a :: text, skip + 1, within => by
      exact lenientFrom_append plain rest text skip (by simpa using within)
  | a :: text, 0, _ => by
      have same := escapeAt_append plain rest (a :: text)
      rw [List.cons_append] at same
      simp only [List.cons_append, lenientFrom, same]
      cases found : escapeAt (a :: text) with
      | none => simp [lenientFrom_append plain rest text 0 (Nat.zero_le _)]
      | some escape =>
          have within := escapeAt_le found
          rw [List.length_cons] at within
          simp [lenientFrom_append plain rest text (escape.2 - 1) (by omega)]

/-- What stands before a plain character and what stands after it are decoded apart. -/
theorem lenientDecode_append {c : Char} (plain : isPlain c = true) (text rest : List Char) :
    lenientDecode (text ++ c :: rest) = lenientDecode text ++ c :: lenientDecode rest :=
  lenientFrom_append plain rest text 0 (Nat.zero_le _)

end GhcpConsole
