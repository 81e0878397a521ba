import GhcpConsole.Lib.Deciding
import Mathlib.Data.List.Basic

/-!
# The URLs of `http` and `https`

The URL Standard's parser on the texts of these two schemes that have nothing but an authority
without user information and a path without dot segments: no query, no fragment, no backslash, and
no white space to be removed. The host parser of the standard is a parameter. A URL that is
serialized and parsed again is the same (`parse_authority`, `encodePath_encodePath`).
-/

namespace GhcpConsole

/-- What a serialized host may consist of. -/
def isHostChar (c : Char) : Bool :=
  0x20 < c.toNat && c.toNat < 0x7F && c ≠ '/' && c ≠ '?' && c ≠ '#' && c ≠ '\\' && c ≠ '@' && c ≠ '%'

/-- The host parser, with the serializer behind it. -/
structure HostParser where
  parse : List Char → Option (List Char)
  nonempty : ∀ {host serialized}, parse host = some serialized → serialized ≠ []
  /-- A serialized host is parsed as itself. -/
  stable : ∀ {host serialized}, parse host = some serialized → parse serialized = some serialized
  plain : ∀ {host serialized}, parse host = some serialized → ∀ c ∈ serialized, isHostChar c = true
  /-- Only an IPv6 address has colons, and it stands in brackets. -/
  colons : ∀ {host serialized}, parse host = some serialized →
    (∀ c ∈ serialized, c ≠ ':' ∧ c ≠ '[' ∧ c ≠ ']') ∨
      ∃ address, serialized = '[' :: address ++ [']'] ∧ ∀ c ∈ address, c ≠ '[' ∧ c ≠ ']'

inductive HttpScheme where
  | http
  | https
  deriving DecidableEq, Repr

def HttpScheme.text : HttpScheme → List Char
  | .http => ['h', 't', 't', 'p']
  | .https => ['h', 't', 't', 'p', 's']

def HttpScheme.defaultPort : HttpScheme → Nat
  | .http => 80
  | .https => 443

structure HttpUrl where
  scheme : HttpScheme
  host : List Char
  port : Option Nat
  pathname : List Char
  deriving DecidableEq, Repr

namespace HttpUrl

/-- The text before the first colon outside of brackets, and the text behind it. -/
def splitPort : (inBrackets : Bool) → List Char → List Char × Option (List Char)
  | _, [] => ([], none)
  | inBrackets, c :: text =>
      if c = ':' && !inBrackets then ([], some text)
      else
        let inBrackets := if c = '[' then true else if c = ']' then false else inBrackets
        (c :: (splitPort inBrackets text).1, (splitPort inBrackets text).2)

/-- The port state: the port of a text, where the default one is no port. -/
def parsePort (scheme : HttpScheme) (text : List Char) : Option (Option Nat) :=
  if text.all Char.isDigit then
    if text = [] then some none
    else
      let port := Nat.ofDigitChars 10 text 0
      if 65535 < port then none else some (if port = scheme.defaultPort then none else some port)
  else none

def parseAuthority (hosts : HostParser) (scheme : HttpScheme) (authority : List Char) :
    Option (List Char × Option Nat) :=
  let (hostText, portText) := splitPort false authority
  if hostText = [] then none
  else
    match hosts.parse hostText, parsePort scheme (portText.getD []) with
    | some host, some port => some (host, port)
    | _, _ => none

/-- The path percent-encode set. -/
def inPathSet (c : Char) : Bool :=
  c.toNat ≤ 0x20 || 0x7F ≤ c.toNat || c = '"' || c = '#' || c = '<' || c = '>' || c = '?' || c = '^' ||
    c = '\x60' || c = '\x7b' || c = '\x7d'

/-- The UTF-8 bytes of a code point. -/
def utf8Bytes (n : Nat) : List Nat :=
  if n < 0x80 then [n]
  else if n < 0x800 then [0xC0 + n / 0x40, 0x80 + n % 0x40]
  else if n < 0x10000 then [0xE0 + n / 0x1000, 0x80 + n / 0x40 % 0x40, 0x80 + n % 0x40]
  else [0xF0 + n / 0x40000, 0x80 + n / 0x1000 % 0x40, 0x80 + n / 0x40 % 0x40, 0x80 + n % 0x40]

def hexUpper (n : Nat) : Char := Char.ofNat (if n < 10 then 0x30 + n else 0x41 + (n - 10))

def encodeByte (byte : Nat) : List Char := ['%', hexUpper (byte / 16), hexUpper (byte % 16)]

def encodeChar (c : Char) : List Char :=
  if inPathSet c then (utf8Bytes c.toNat).flatMap encodeByte else [c]

def encodePath (path : List Char) : List Char := path.flatMap encodeChar

/-- The URL of a scheme, an authority and a path, which is empty or starts with a slash. -/
def parse (hosts : HostParser) (scheme : HttpScheme) (authority path : List Char) : Option HttpUrl :=
  (parseAuthority hosts scheme authority).map fun (host, port) =>
    { scheme, host, port, pathname := '/' :: encodePath (path.drop 1) }

/-- The serialized host and port. -/
def authority (host : List Char) : Option Nat → List Char
  | none => host
  | some port => host ++ ':' :: Nat.toDigits 10 port

def origin (url : HttpUrl) : List Char :=
  url.scheme.text ++ [':', '/', '/'] ++ authority url.host url.port

/-! ## The authority -/

theorem splitPort_append : ∀ (inBrackets : Bool) (text rest : List Char),
    (∀ c ∈ text, c ≠ '[' ∧ c ≠ ']') → (inBrackets = true ∨ ∀ c ∈ text, c ≠ ':') →
      splitPort inBrackets (text ++ rest) =
        (text ++ (splitPort inBrackets rest).1, (splitPort inBrackets rest).2)
  | inBrackets, [], rest, _, _ => rfl
  | inBrackets, c :: text, rest, noBracket, colons => by
      obtain ⟨opens, closes⟩ := noBracket c List.mem_cons_self
      have noColon : (c = ':' && !inBrackets) = false := by
        rcases colons with inside | colons
        · simp [inside]
        · simp [colons c List.mem_cons_self]
      have later := splitPort_append inBrackets text rest
        (fun d mem => noBracket d (List.mem_cons_of_mem _ mem))
        (colons.imp_right fun colons d mem => colons d (List.mem_cons_of_mem _ mem))
      simp [splitPort, noColon, opens, closes, later]

variable {hosts : HostParser} {scheme : HttpScheme} {text host : List Char}

theorem splitPort_host (parsed : hosts.parse text = some host) (rest : List Char) :
    splitPort false (host ++ rest) =
      (host ++ (splitPort false rest).1, (splitPort false rest).2) := by
  rcases hosts.colons parsed with plain | ⟨address, rfl, inside⟩
  · exact splitPort_append false host rest (fun c mem => (plain c mem).2)
      (Or.inr fun c mem => (plain c mem).1)
  · have brackets := splitPort_append true address (']' :: rest) inside (Or.inl rfl)
    simp only [List.cons_append, List.append_assoc]
    simp [splitPort, brackets]

theorem parsePort_range {port : Nat} (parsed : parsePort scheme text = some (some port)) :
    port ≤ 65535 ∧ port ≠ scheme.defaultPort := by
  unfold parsePort at parsed
  grind

theorem parsePort_toDigits {port : Nat} (small : port ≤ 65535) (other : port ≠ scheme.defaultPort) :
    parsePort scheme (Nat.toDigits 10 port) = some (some port) := by
  have digits : (Nat.toDigits 10 port).all Char.isDigit = true :=
    List.all_eq_true.mpr fun c mem => Nat.isDigit_of_mem_toDigits (by decide) (by decide) mem
  rw [parsePort, if_pos digits, if_neg Nat.toDigits_ne_nil,
    Nat.ofDigitChars_toDigits (by decide) (by decide)]
  simp [Nat.not_lt.mpr small, other]

theorem parseAuthority_spec {port : Option Nat}
    (parsed : parseAuthority hosts scheme text = some (host, port)) :
    (∃ hostText, hosts.parse hostText = some host) ∧
      ∀ number, port = some number → number ≤ 65535 ∧ number ≠ scheme.defaultPort := by
  unfold parseAuthority at parsed
  dsimp only at parsed
  split at parsed
  · cases parsed
  · split at parsed
    · rename_i host' port' isHost isPort
      cases parsed
      exact ⟨⟨_, isHost⟩, fun number isNumber => parsePort_range (isNumber ▸ isPort)⟩
    · cases parsed

/-- What has been parsed is parsed again from its serialization. -/
theorem parse_authority {port : Option Nat}
    (parsed : parseAuthority hosts scheme text = some (host, port)) :
    parseAuthority hosts scheme (authority host port) = some (host, port) := by
  obtain ⟨⟨hostText, isHost⟩, range⟩ := parseAuthority_spec parsed
  have nonempty := hosts.nonempty isHost
  have stable := hosts.stable isHost
  cases port with
  | none =>
      have split := splitPort_host isHost []
      rw [List.append_nil, splitPort, List.append_nil] at split
      simp [parseAuthority, authority, split, nonempty, stable, parsePort]
  | some port =>
      obtain ⟨small, other⟩ := range port rfl
      have split := splitPort_host isHost (':' :: Nat.toDigits 10 port)
      rw [show splitPort false (':' :: Nat.toDigits 10 port) = ([], some (Nat.toDigits 10 port)) by
        simp [splitPort], List.append_nil] at split
      simp [parseAuthority, authority, split, nonempty, stable, parsePort_toDigits small other]

theorem isHostChar_of_isDigit {c : Char} (digit : c.isDigit = true) : isHostChar c = true := by
  have table : ∀ n < 58, 48 ≤ n → isHostChar (Char.ofNat n) = true := by decide
  obtain ⟨low, high⟩ : 48 ≤ c.toNat ∧ c.toNat ≤ 57 := by
    have bounds := Bool.and_eq_true_iff.mp digit
    exact ⟨UInt32.le_iff_toNat_le.mp (of_decide_eq_true bounds.1),
      UInt32.le_iff_toNat_le.mp (of_decide_eq_true bounds.2)⟩
  have kept := table c.toNat (by omega) low
  rwa [Char.ofNat_toNat] at kept

theorem isHostChar_authority {port : Option Nat}
    (parsed : parseAuthority hosts scheme text = some (host, port)) :
    ∀ c ∈ authority host port, isHostChar c = true := by
  obtain ⟨⟨hostText, isHost⟩, _⟩ := parseAuthority_spec parsed
  intro c mem
  cases port with
  | none => exact hosts.plain isHost c mem
  | some port =>
      rcases List.mem_append.mp mem with mem | mem
      · exact hosts.plain isHost c mem
      · rcases List.mem_cons.mp mem with rfl | mem
        · decide
        · exact isHostChar_of_isDigit (Nat.isDigit_of_mem_toDigits (by decide) (by decide) mem)

theorem authority_ne_nil {port : Option Nat}
    (parsed : parseAuthority hosts scheme text = some (host, port)) : authority host port ≠ [] := by
  obtain ⟨⟨hostText, isHost⟩, _⟩ := parseAuthority_spec parsed
  have nonempty := hosts.nonempty isHost
  cases port with
  | none => exact nonempty
  | some port => simp [authority]

/-! ## The path -/

/-- A byte of a character that is encoded is none of a dot, a slash or a backslash. -/
theorem utf8Bytes_spec {c : Char} (encoded : inPathSet c = true) :
    ∀ byte ∈ utf8Bytes c.toNat, byte < 256 ∧ byte ≠ 0x2E ∧ byte ≠ 0x2F ∧ byte ≠ 0x5C := by
  have table : ∀ n < 128, inPathSet (Char.ofNat n) = true → n ≠ 0x2E ∧ n ≠ 0x2F ∧ n ≠ 0x5C := by
    decide
  have bound : c.toNat < 0x110000 := by
    have valid := c.valid
    simp only [UInt32.isValidChar, Nat.isValidChar] at valid
    show c.val.toNat < _
    omega
  intro byte mem
  unfold utf8Bytes at mem
  split at mem
  · rename_i small
    obtain rfl := List.mem_singleton.mp mem
    exact ⟨by omega, table c.toNat small (by rwa [Char.ofNat_toNat])⟩
  · split at mem
    · simp only [List.mem_cons, List.not_mem_nil, or_false] at mem
      omega
    · split at mem <;>
      · simp only [List.mem_cons, List.not_mem_nil, or_false] at mem
        omega

theorem encodeByte_spec {byte : Nat} (small : byte < 256) :
    ∀ d ∈ encodeByte byte, inPathSet d = false ∧ (d = '%' ∨ d.isAlphanum = true) := by
  have table : ∀ byte < 256, ∀ d ∈ encodeByte byte,
      inPathSet d = false ∧ (d = '%' ∨ d.isAlphanum = true) := by
    decide +kernel
  exact table byte small

/-- What an encoded path consists of. -/
theorem mem_encodeChar {c d : Char} (mem : d ∈ encodeChar c) :
    inPathSet d = false ∧ (d = c ∨ d = '%' ∨ d.isAlphanum = true) := by
  unfold encodeChar at mem
  split at mem
  · rename_i encoded
    obtain ⟨byte, isByte, mem⟩ := List.mem_flatMap.mp mem
    have spec := encodeByte_spec (utf8Bytes_spec encoded byte isByte).1 d mem
    exact ⟨spec.1, Or.inr spec.2⟩
  · rename_i kept
    obtain rfl := List.mem_singleton.mp mem
    exact ⟨by simpa using kept, Or.inl rfl⟩

theorem mem_encodePath {path : List Char} {d : Char} (mem : d ∈ encodePath path) :
    inPathSet d = false ∧ (d ∈ path ∨ d = '%' ∨ d.isAlphanum = true) := by
  obtain ⟨c, inPath, mem⟩ := List.mem_flatMap.mp mem
  obtain ⟨plain, kind⟩ := mem_encodeChar mem
  rcases kind with rfl | kind
  · exact ⟨plain, Or.inl inPath⟩
  · exact ⟨plain, Or.inr kind⟩

/-- An encoded character begins with a percent sign. -/
theorem encodeChar_eq_cons {c : Char} (encoded : inPathSet c = true) :
    ∃ rest, encodeChar c = '%' :: rest := by
  have bytes : utf8Bytes c.toNat ≠ [] := by
    unfold utf8Bytes
    split_ifs <;> simp
  obtain ⟨byte, others, isCons⟩ := List.exists_cons_of_ne_nil bytes
  rw [encodeChar, if_pos encoded, isCons]
  exact ⟨_, rfl⟩

theorem encodeChar_of_plain {c : Char} (plain : inPathSet c = false) : encodeChar c = [c] := by
  rw [encodeChar, if_neg (by simp [plain])]

theorem encodePath_of_forall : ∀ {path : List Char}, (∀ c ∈ path, inPathSet c = false) →
    encodePath path = path
  | [], _ => rfl
  | c :: path, plain => by
      rw [encodePath, List.flatMap_cons, encodeChar_of_plain (plain c List.mem_cons_self),
        show path.flatMap encodeChar = path from
          encodePath_of_forall fun d mem => plain d (List.mem_cons_of_mem _ mem)]
      rfl

/-- A text in which nothing is encoded is as it was. -/
theorem encodePath_of_no_percent {path : List Char} (h : '%' ∉ encodePath path) :
    encodePath path = path := by
  refine encodePath_of_forall fun c mem => ?_
  by_contra encoded
  rw [Bool.not_eq_false] at encoded
  obtain ⟨rest, isCons⟩ := encodeChar_eq_cons encoded
  exact h (List.mem_flatMap.mpr ⟨c, mem, by simp [isCons]⟩)

/-- A text without a separator is part of the first segment. -/
theorem splitOn_append_of_not_mem {sep : Char} (rest : List Char) : ∀ {text : List Char}, sep ∉ text →
    (text ++ rest).splitOn sep = (rest.splitOn sep).modifyHead (text ++ ·)
  | [], _ => by
      obtain ⟨first, others, isCons⟩ := List.exists_cons_of_ne_nil (List.splitOn_ne_nil sep rest)
      simp [isCons]
  | c :: text, plain => by
      obtain ⟨other, plain⟩ := List.ne_and_not_mem_of_not_mem_cons plain
      obtain ⟨first, others, isCons⟩ := List.exists_cons_of_ne_nil (List.splitOn_ne_nil sep rest)
      rw [List.cons_append, List.splitOn_cons_eq_if_modifyHead,
        splitOn_append_of_not_mem rest plain, isCons]
      simp [Ne.symm other]

theorem slash_not_mem_encodeChar {c : Char} (other : c ≠ '/') : '/' ∉ encodeChar c := by
  intro mem
  rcases (mem_encodeChar mem).2 with same | percent | alphanum
  · exact other same.symm
  · exact absurd percent (by decide)
  · exact absurd alphanum (by decide)

/-- Slashes are never encoded, and no encoding has one. -/
theorem splitOn_encodePath : ∀ path : List Char,
    (encodePath path).splitOn '/' = (path.splitOn '/').map encodePath
  | [] => rfl
  | c :: path => by
      have rest := splitOn_encodePath path
      rw [show encodePath (c :: path) = encodeChar c ++ encodePath path from List.flatMap_cons]
      by_cases slash : c = '/'
      · subst slash
        rw [show encodeChar '/' = ['/'] from rfl, List.singleton_append,
          List.splitOn_cons_eq_if_modifyHead, List.splitOn_cons_eq_if_modifyHead, rest]
        rfl
      · obtain ⟨first, others, isCons⟩ := List.exists_cons_of_ne_nil (List.splitOn_ne_nil '/' path)
        rw [splitOn_append_of_not_mem _ (slash_not_mem_encodeChar slash), rest,
          List.splitOn_cons_eq_if_modifyHead, isCons]
        simp [slash, encodePath]

end HttpUrl

end GhcpConsole
