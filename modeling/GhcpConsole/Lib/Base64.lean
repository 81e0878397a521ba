import GhcpConsole.Lib.CodeUnits

/-!
# Base64

`buffer.toString('base64')` and `'base64url'`, and `Buffer.from(text, 'base64')`, which reads both alphabets up
to the first `=` and passes over every other character.
-/

namespace GhcpConsole.Base64

/-- The digit `n` below 64 of the alphabet, or of the one for URLs. -/
def digit (url : Bool) (n : Nat) : CodeUnit :=
  if n < 26 then UInt16.ofNat (0x41 + n)
  else if n < 52 then UInt16.ofNat (0x61 + (n - 26))
  else if n < 62 then UInt16.ofNat (0x30 + (n - 52))
  else if n = 62 then codeUnit (if url then '-' else '+')
  else codeUnit (if url then '_' else '/')

def value? (u : CodeUnit) : Option Nat :=
  if codeUnit 'A' ≤ u ∧ u ≤ codeUnit 'Z' then some (u.toNat - 0x41)
  else if codeUnit 'a' ≤ u ∧ u ≤ codeUnit 'z' then some (u.toNat - 0x61 + 26)
  else if codeUnit '0' ≤ u ∧ u ≤ codeUnit '9' then some (u.toNat - 0x30 + 52)
  else if u = codeUnit '+' ∨ u = codeUnit '-' then some 62
  else if u = codeUnit '/' ∨ u = codeUnit '_' then some 63
  else none

def padding (url : Bool) (n : Nat) : JsString := if url then [] else List.replicate n (codeUnit '=')

/-- Three bytes are four digits; the last group has as many as its bytes need. -/
def encode (url : Bool) : List UInt8 → JsString
  | [] => []
  | [a] => [a.toNat / 4, a.toNat % 4 * 16].map (digit url) ++ padding url 2
  | [a, b] =>
      [a.toNat / 4, a.toNat % 4 * 16 + b.toNat / 16, b.toNat % 16 * 4].map (digit url) ++ padding url 1
  | a :: b :: c :: rest =>
      [a.toNat / 4, a.toNat % 4 * 16 + b.toNat / 16, b.toNat % 16 * 4 + c.toNat / 64, c.toNat % 64].map (digit url)
        ++ encode url rest

def decodeDigits : List Nat → List UInt8
  | a :: b :: c :: d :: rest =>
      [a * 4 + b / 16, b % 16 * 16 + c / 4, c % 4 * 64 + d].map UInt8.ofNat ++ decodeDigits rest
  | [a, b, c] => [a * 4 + b / 16, b % 16 * 16 + c / 4].map UInt8.ofNat
  | [a, b] => [a * 4 + b / 16].map UInt8.ofNat
  | _ => []

def digitsOf (text : JsString) : List Nat := (text.takeWhile (· ≠ codeUnit '=')).filterMap value?

def decode (text : JsString) : List UInt8 := decodeDigits (digitsOf text)

example : decode (encode false [0x66, 0x6F, 0x6F, 0x62]) = [0x66, 0x6F, 0x6F, 0x62] := by decide

/-- What an encoded text has: digits and padding. -/
def isBase64 (u : CodeUnit) : Bool := (value? u).isSome || u = codeUnit '='

section RoundTrip

variable {url : Bool} {n m k l : Nat} {text : JsString}

theorem value?_digit (small : n < 64) : value? (digit url n) = some n := by
  have each : ∀ url, ∀ n < 64, value? (digit url n) = some n := by decide
  exact each url n small

theorem digit_ne_padding (small : n < 64) : digit url n ≠ codeUnit '=' := by
  have each : ∀ url, ∀ n < 64, digit url n ≠ codeUnit '=' := by decide
  exact each url n small

theorem digitsOf_padding : digitsOf (padding url n) = [] := by
  cases url with
  | true => rfl
  | false =>
      cases n with
      | zero => rfl
      | succ n =>
          rw [digitsOf, padding, if_neg Bool.false_ne_true, List.replicate_succ,
            List.takeWhile_cons_of_neg (by simp), List.filterMap_nil]

theorem digitsOf_digits {digits : List Nat} (small : ∀ n ∈ digits, n < 64) :
    digitsOf (digits.map (digit url) ++ text) = digits ++ digitsOf text := by
  induction digits with
  | nil => rfl
  | cons n digits ih =>
      have own := small n List.mem_cons_self
      rw [digitsOf, List.map_cons, List.cons_append, List.takeWhile_cons_of_pos (by simp [digit_ne_padding own]),
        List.filterMap_cons, value?_digit own]
      exact congrArg (n :: ·) (ih fun m mem => small m (List.mem_cons_of_mem _ mem))

theorem ofNat_eq (a : UInt8) (same : n = a.toNat) : UInt8.ofNat n = a := by
  rw [same, UInt8.ofNat_toNat]

theorem decode_encode (bytes : List UInt8) : decode (encode url bytes) = bytes := by
  induction bytes using encode.induct with
  | case1 => rfl
  | case2 a =>
      have ha := a.toNat_lt
      rw [encode, decode, digitsOf_digits (by simp; omega), digitsOf_padding]
      exact congrArg (· :: []) (ofNat_eq a (by omega))
  | case3 a b =>
      have ha := a.toNat_lt
      have hb := b.toNat_lt
      rw [encode, decode, digitsOf_digits (by simp; omega), digitsOf_padding]
      exact congrArg₂ (· :: · :: []) (ofNat_eq a (by omega)) (ofNat_eq b (by omega))
  | case4 a b c rest ih =>
      have ha := a.toNat_lt
      have hb := b.toNat_lt
      have hc := c.toNat_lt
      have front : [a.toNat / 4 * 4 + (a.toNat % 4 * 16 + b.toNat / 16) / 16,
          (a.toNat % 4 * 16 + b.toNat / 16) % 16 * 16 + (b.toNat % 16 * 4 + c.toNat / 64) / 4,
          (b.toNat % 16 * 4 + c.toNat / 64) % 4 * 64 + c.toNat % 64].map UInt8.ofNat = [a, b, c] := by
        rw [List.map_cons, List.map_cons, List.map_cons, List.map_nil, ofNat_eq a (by omega),
          ofNat_eq b (by omega), ofNat_eq c (by omega)]
      rw [encode, decode, digitsOf_digits (by simp; omega)]
      exact (congrArg₂ (· ++ ·) front ih)

theorem isBase64_digit (small : n < 64) : isBase64 (digit url n) = true := by
  rw [isBase64, value?_digit small]
  rfl

theorem isBase64_padding : ∀ u ∈ padding url n, isBase64 u = true := by
  intro u mem
  cases url with
  | true => cases mem
  | false => exact (List.eq_of_mem_replicate mem) ▸ rfl

theorem isBase64_digits {digits : List Nat} (small : ∀ n ∈ digits, n < 64)
    (rest : ∀ u ∈ text, isBase64 u = true) : ∀ u ∈ digits.map (digit url) ++ text, isBase64 u = true := by
  intro u mem
  rcases List.mem_append.mp mem with first | later
  · obtain ⟨n, own, rfl⟩ := List.mem_map.mp first
    exact isBase64_digit (small n own)
  · exact rest u later

theorem isBase64_encode (bytes : List UInt8) : ∀ u ∈ encode url bytes, isBase64 u = true := by
  induction bytes using encode.induct with
  | case1 => exact fun u mem => (List.not_mem_nil mem).elim
  | case2 a =>
      have ha := a.toNat_lt
      exact isBase64_digits (by simp; omega) isBase64_padding
  | case3 a b =>
      have ha := a.toNat_lt
      have hb := b.toNat_lt
      exact isBase64_digits (by simp; omega) isBase64_padding
  | case4 a b c rest ih =>
      have ha := a.toNat_lt
      have hb := b.toNat_lt
      have hc := c.toNat_lt
      exact isBase64_digits (by simp; omega) ih

end RoundTrip

end GhcpConsole.Base64
