import GhcpConsole.Lib.HttpUrl
import GhcpConsole.Lib.JsText

/-!
# Trusted URLs

`trustedUrl.ts`: a URL is taken apart into its origin and the segments of its path, of which one
trailing empty segment is dropped, and the href is put together from them. When the href is read
again, one more empty segment is dropped (`parseTrustedUrl_href`).
-/

namespace GhcpConsole.Enterprise

structure TrustedUrl where
  href : List Char
  origin : List Char
  hostname : List Char
  segments : List (List Char)
  deriving DecidableEq

/-- `/[\s\u0000-\u001f\u007f]/` -/
def isWhitespaceOrControl (c : Char) : Bool := isTrimmed c || c.toNat ≤ 0x1F || c.toNat = 0x7F

/-- `/%(2e|2f|5c)/i`, behind the percent sign. -/
def separatorDigits : List Char → Bool
  | a :: b :: _ =>
      (a = '2' && (b = 'e' || b = 'E' || b = 'f' || b = 'F')) || (a = '5' && (b = 'c' || b = 'C'))
  | _ => false

def hasEncodedSeparator : List Char → Bool
  | [] => false
  | c :: text => (c = '%' && separatorDigits text) || hasEncodedSeparator text

/-- `/(^|\/)\.{1,2}(\/|$)/` -/
def hasDotSegment (path : List Char) : Bool :=
  (path.splitOn '/').any fun segment => segment = ['.'] || segment = ['.', '.']

/-- `/^https?:\/\//i` -/
def dropScheme (raw : List Char) : Option (HttpScheme × List Char) :=
  if (raw.take 7).map Char.toLower = HttpScheme.http.text ++ [':', '/', '/'] then
    some (.http, raw.drop 7)
  else if (raw.take 8).map Char.toLower = HttpScheme.https.text ++ [':', '/', '/'] then
    some (.https, raw.drop 8)
  else none

/-- `URL_PARTS.exec(raw)` -/
def urlParts (raw : List Char) : Option (HttpScheme × List Char × List Char) :=
  match dropScheme raw with
  | none => none
  | some (scheme, rest) =>
      let path := rest.dropWhile (· ≠ '/')
      if path.any isLineTerminator then none else some (scheme, rest.takeWhile (· ≠ '/'), path)

/-- `if (segments.at(-1) === '') segments.pop()` -/
def popEmpty (segments : List (List Char)) : List (List Char) :=
  if segments.getLast? = some [] then segments.dropLast else segments

def hrefOf (origin : List Char) (segments : List (List Char)) : List Char :=
  if segments = [] then origin else origin ++ '/' :: ['/'].intercalate segments

def TrustedUrl.of (url : HttpUrl) (segments : List (List Char)) : TrustedUrl where
  href := hrefOf url.origin segments
  origin := url.origin
  hostname := url.host
  segments := segments

def parseTrustedUrl (hosts : HostParser) (raw : List Char) : Except String TrustedUrl :=
  match urlParts raw with
  | none => .error "must be an http(s) URL"
  | some (scheme, authority, path) =>
      if raw.any isWhitespaceOrControl then
        .error "must not contain whitespace or control characters"
      else if raw.contains '\\' then .error "must not contain a backslash"
      else if hasEncodedSeparator raw then
        .error "must not contain encoded dots, slashes or backslashes"
      else if raw.contains '?' then .error "must not contain a query"
      else if raw.contains '#' then .error "must not contain a fragment"
      else if authority = [] then .error "must have a host"
      else if authority.contains '@' then .error "must not contain userinfo"
      else if hasDotSegment path then .error "must not contain dot segments"
      else match HttpUrl.parse hosts scheme authority path with
        | none => .error "must be a valid URL"
        | some url => .ok (.of url (popEmpty ((url.pathname.splitOn '/').drop 1)))

/-! ## Encoded separators -/

theorem separatorDigits_append {text : List Char} (h : separatorDigits text = true) (rest : List Char) :
    separatorDigits (text ++ rest) = true := by
  match text, h with
  | _ :: _ :: _, h => exact h

theorem hasEncodedSeparator_append : ∀ {text rest : List Char},
    hasEncodedSeparator (text ++ rest) = false →
      hasEncodedSeparator text = false ∧ hasEncodedSeparator rest = false
  | [], rest, h => ⟨rfl, h⟩
  | c :: text, rest, h => by
      rw [List.cons_append, hasEncodedSeparator, Bool.or_eq_false_iff] at h
      obtain ⟨first, later⟩ := hasEncodedSeparator_append h.2
      refine ⟨?_, later⟩
      rw [hasEncodedSeparator, first, Bool.or_false]
      by_contra found
      obtain ⟨percent, digits⟩ := Bool.and_eq_true_iff.mp ((Bool.not_eq_false _).mp found)
      have found := separatorDigits_append digits rest
      simp [of_decide_eq_true percent, found] at h

/-- A text without a percent sign has no encoded separator, and none begins in it. -/
theorem hasEncodedSeparator_of_no_percent : ∀ {text : List Char}, '%' ∉ text → ∀ rest,
    hasEncodedSeparator (text ++ rest) = hasEncodedSeparator rest
  | [], _, _ => rfl
  | c :: text, plain, rest => by
      obtain ⟨other, plain⟩ := List.ne_and_not_mem_of_not_mem_cons plain
      rw [List.cons_append, hasEncodedSeparator, hasEncodedSeparator_of_no_percent plain]
      simp [Ne.symm other]

theorem hasEncodedSeparator_bytes (rest : List Char) : ∀ bytes : List Nat,
    (∀ byte ∈ bytes, byte < 256 ∧ byte ≠ 0x2E ∧ byte ≠ 0x2F ∧ byte ≠ 0x5C) →
      hasEncodedSeparator (bytes.flatMap HttpUrl.encodeByte ++ rest) = hasEncodedSeparator rest
  | [], _ => rfl
  | byte :: bytes, plain => by
      have table : ∀ byte < 256, byte ≠ 0x2E ∧ byte ≠ 0x2F ∧ byte ≠ 0x5C →
          HttpUrl.hexUpper (byte / 16) ≠ '%' ∧ HttpUrl.hexUpper (byte % 16) ≠ '%' ∧
            separatorDigits [HttpUrl.hexUpper (byte / 16), HttpUrl.hexUpper (byte % 16)] = false := by
        decide +kernel
      obtain ⟨small, other⟩ := plain byte List.mem_cons_self
      obtain ⟨high, low, digits⟩ := table byte small other
      have digits : ∀ text, separatorDigits
          (HttpUrl.hexUpper (byte / 16) :: HttpUrl.hexUpper (byte % 16) :: text) = false := fun _ => digits
      rw [List.flatMap_cons, List.append_assoc, HttpUrl.encodeByte]
      simp [hasEncodedSeparator, high, low, digits,
        hasEncodedSeparator_bytes rest bytes fun other mem => plain other (List.mem_cons_of_mem _ mem)]

theorem separatorDigits_encodePath {path : List Char}
    (h : separatorDigits (HttpUrl.encodePath path) = true) : separatorDigits path = true := by
  have notPercent : ∀ text, separatorDigits ('%' :: text) = false := by
    rintro (_ | ⟨b, text⟩)
    · rfl
    · simp [separatorDigits]
  cases path with
  | nil => exact h
  | cons c path =>
      cases encoded : HttpUrl.inPathSet c with
      | true =>
          obtain ⟨rest, isCons⟩ := HttpUrl.encodeChar_eq_cons encoded
          rw [HttpUrl.encodePath, List.flatMap_cons, isCons, List.cons_append, notPercent] at h
          cases h
      | false =>
          rw [HttpUrl.encodePath, List.flatMap_cons, HttpUrl.encodeChar_of_plain encoded,
            List.singleton_append] at h
          cases path with
          | nil => exact h
          | cons d path =>
              cases encoded' : HttpUrl.inPathSet d with
              | true =>
                  obtain ⟨rest, isCons⟩ := HttpUrl.encodeChar_eq_cons encoded'
                  rw [List.flatMap_cons, isCons] at h
                  simp [separatorDigits] at h
              | false =>
                  rw [List.flatMap_cons, HttpUrl.encodeChar_of_plain encoded'] at h
                  exact h

theorem hasEncodedSeparator_encodePath : ∀ {path : List Char}, hasEncodedSeparator path = false →
    hasEncodedSeparator (HttpUrl.encodePath path) = false
  | [], _ => rfl
  | c :: path, h => by
      rw [hasEncodedSeparator, Bool.or_eq_false_iff] at h
      have later := hasEncodedSeparator_encodePath h.2
      rw [HttpUrl.encodePath, List.flatMap_cons]
      cases encoded : HttpUrl.inPathSet c with
      | true =>
          rw [HttpUrl.encodeChar, if_pos encoded,
            hasEncodedSeparator_bytes _ _ (HttpUrl.utf8Bytes_spec encoded)]
          exact later
      | false =>
          rw [HttpUrl.encodeChar_of_plain encoded, List.singleton_append, hasEncodedSeparator,
            Bool.or_eq_false_iff]
          refine ⟨?_, later⟩
          by_contra found
          obtain ⟨percent, digits⟩ := Bool.and_eq_true_iff.mp ((Bool.not_eq_false _).mp found)
          simp [of_decide_eq_true percent, separatorDigits_encodePath digits] at h

/-! ## Reading an href again -/

/-- A segment that the parser gives out: nothing in it is encoded or removed once more. -/
structure CleanSegment (segment : List Char) : Prop where
  dots : segment ≠ ['.'] ∧ segment ≠ ['.', '.']
  chars : ∀ c ∈ segment, c ≠ '/' ∧ c ≠ '\\' ∧ HttpUrl.inPathSet c = false

/-- A printable ASCII character that is no mark of the rules. -/
def isUrlChar (c : Char) : Bool := 0x20 < c.toNat && c.toNat < 0x7F && c ≠ '\\' && c ≠ '?' && c ≠ '#'

theorem isUrlChar_of_inPathSet {c : Char} (plain : HttpUrl.inPathSet c = false) (other : c ≠ '\\') :
    isUrlChar c = true := by
  simp only [HttpUrl.inPathSet, Bool.or_eq_false_iff, decide_eq_false_iff_not] at plain
  simp only [isUrlChar, Bool.and_eq_true, decide_eq_true_eq]
  refine ⟨⟨⟨⟨?_, ?_⟩, other⟩, ?_⟩, ?_⟩
  · omega
  · omega
  · exact plain.1.1.1.1.2
  · exact plain.1.1.1.1.1.1.1.2

theorem isUrlChar_of_isHostChar {c : Char} (h : isHostChar c = true) : isUrlChar c = true := by
  simp only [isHostChar, isUrlChar, Bool.and_eq_true, decide_eq_true_eq] at h ⊢
  tauto

theorem isWhitespaceOrControl_of_isUrlChar {c : Char} (h : isUrlChar c = true) :
    isWhitespaceOrControl c = false := by
  simp only [isUrlChar, Bool.and_eq_true, decide_eq_true_eq] at h
  simp only [isWhitespaceOrControl, isTrimmed, Bool.or_eq_false_iff, Bool.and_eq_false_iff,
    decide_eq_false_iff_not, beq_eq_false_iff_ne]
  omega

theorem isLineTerminator_of_isUrlChar {c : Char} (h : isUrlChar c = true) :
    isLineTerminator c = false := by
  by_contra line
  simp only [isLineTerminator, Bool.not_eq_false, Bool.or_eq_true, decide_eq_true_eq] at line
  rcases line with ((rfl | rfl) | rfl) | rfl <;> exact absurd h (by decide)

theorem mem_intercalate {sep c : Char} : ∀ {segments : List (List Char)},
    c ∈ [sep].intercalate segments → c = sep ∨ ∃ segment ∈ segments, c ∈ segment
  | [], mem => by cases mem
  | [segment], mem => Or.inr ⟨segment, List.mem_singleton_self _, by simpa using mem⟩
  | segment :: next :: segments, mem => by
      rw [List.intercalate_cons_cons] at mem
      rcases List.mem_append.mp mem with mem | mem
      · rcases List.mem_append.mp mem with mem | mem
        · exact Or.inr ⟨segment, List.mem_cons_self, mem⟩
        · exact Or.inl (List.mem_singleton.mp mem)
      · rcases mem_intercalate mem with isSep | ⟨other, isOther, mem⟩
        · exact Or.inl isSep
        · exact Or.inr ⟨other, List.mem_cons_of_mem _ isOther, mem⟩

theorem mem_of_mem_intercalate {sep c : Char} : ∀ {segments : List (List Char)} {segment : List Char},
    segment ∈ segments → c ∈ segment → c ∈ [sep].intercalate segments
  | [_], segment, isSegment, mem => by
      obtain rfl := List.mem_singleton.mp isSegment
      simpa using mem
  | first :: next :: segments, segment, isSegment, mem => by
      rw [List.intercalate_cons_cons]
      rcases List.mem_cons.mp isSegment with rfl | isSegment
      · simp [mem]
      · exact List.mem_append_right _ (mem_of_mem_intercalate isSegment mem)

theorem mem_of_mem_splitOn {sep c : Char} {text segment : List Char}
    (isSegment : segment ∈ text.splitOn sep) (mem : c ∈ segment) : c ∈ text := by
  have joined : c ∈ [sep].intercalate (text.splitOn sep) := mem_of_mem_intercalate isSegment mem
  rwa [List.intercalate_splitOn] at joined

/-- The path of an href. -/
def hrefPath (segments : List (List Char)) : List Char :=
  if segments = [] then [] else '/' :: ['/'].intercalate segments

theorem hrefOf_eq (origin : List Char) (segments : List (List Char)) :
    hrefOf origin segments = origin ++ hrefPath segments := by
  unfold hrefOf hrefPath
  split_ifs <;> simp

section Href

variable {segments : List (List Char)} (clean : ∀ segment ∈ segments, CleanSegment segment)

include clean

theorem isUrlChar_hrefPath : ∀ c ∈ hrefPath segments, isUrlChar c = true := by
  intro c mem
  unfold hrefPath at mem
  split at mem
  · cases mem
  · rcases List.mem_cons.mp mem with rfl | mem
    · decide
    · rcases mem_intercalate mem with rfl | ⟨segment, isSegment, mem⟩
      · decide
      · obtain ⟨_, other, plain⟩ := (clean segment isSegment).chars c mem
        exact isUrlChar_of_inPathSet plain other

theorem splitOn_hrefPath : ((hrefPath segments).drop 1).splitOn '/' = if segments = [] then [[]] else segments := by
  unfold hrefPath
  split
  · rfl
  · rename_i nonempty
    rw [List.drop_one, List.tail_cons]
    exact List.splitOn_intercalate '/' (fun segment isSegment mem =>
      ((clean segment isSegment).chars '/' mem).1 rfl) nonempty

theorem encodePath_hrefPath : HttpUrl.encodePath ((hrefPath segments).drop 1) = (hrefPath segments).drop 1 := by
  refine HttpUrl.encodePath_of_forall fun c mem => ?_
  unfold hrefPath at mem
  split at mem
  · cases mem
  · rcases mem_intercalate mem with rfl | ⟨segment, isSegment, mem⟩
    · decide
    · exact ((clean segment isSegment).chars c mem).2.2

theorem hasDotSegment_hrefPath : hasDotSegment (hrefPath segments) = false := by
  have segs := splitOn_hrefPath clean
  unfold hrefPath at segs ⊢
  split at segs
  · rename_i empty
    rw [if_pos empty]
    decide
  · rename_i nonempty
    rw [if_neg nonempty, hasDotSegment, List.splitOn_cons_eq_if_modifyHead]
    rw [List.drop_one, List.tail_cons] at segs
    rw [segs]
    simp only [beq_self_eq_true, if_true, List.any_cons]
    refine Bool.or_eq_false_iff.mpr ⟨by decide, List.any_eq_false.mpr fun segment mem => ?_⟩
    have dots := (clean segment mem).dots
    simp [dots.1, dots.2]

end Href

theorem takeWhile_of_authority {authority : List Char} (noSlash : ∀ c ∈ authority, c ≠ '/')
    {path : List Char} (starts : path = [] ∨ ∃ rest, path = '/' :: rest) :
    (authority ++ path).takeWhile (· ≠ '/') = authority ∧
      (authority ++ path).dropWhile (· ≠ '/') = path := by
  have all : ∀ c ∈ authority, decide (c ≠ '/') = true := fun c mem => by simpa using noSlash c mem
  rw [List.takeWhile_append_of_pos all, List.dropWhile_append_of_pos all]
  rcases starts with rfl | ⟨rest, rfl⟩
  · simp
  · simp

/-- The parts of a URL that is put together from them. -/
theorem urlParts_of_parts (scheme : HttpScheme) {authority path : List Char}
    (noSlash : ∀ c ∈ authority, c ≠ '/') (starts : path = [] ∨ ∃ rest, path = '/' :: rest)
    (noLine : ∀ c ∈ path, isLineTerminator c = false) :
    urlParts (scheme.text ++ [':', '/', '/'] ++ authority ++ path) = some (scheme, authority, path) := by
  obtain ⟨takes, drops⟩ := takeWhile_of_authority noSlash starts
  have line : path.any isLineTerminator = false := List.any_eq_false.mpr fun c mem => by simp [noLine c mem]
  have dropped : dropScheme (scheme.text ++ [':', '/', '/'] ++ authority ++ path) =
      some (scheme, authority ++ path) := by
    cases scheme with
    | http => rfl
    | https => rfl
  rw [urlParts, dropped]
  dsimp only
  rw [drops, takes, line]
  rfl

theorem scheme_chars (scheme : HttpScheme) :
    ∀ c ∈ scheme.text ++ [':', '/', '/'], isUrlChar c = true ∧ c ≠ '%' := by
  cases scheme <;> decide

/-- The checks on the raw text pass where all characters are harmless. -/
theorem parseTrustedUrl_of_parts {hosts : HostParser} {scheme : HttpScheme}
    {authority path raw : List Char} (parts : urlParts raw = some (scheme, authority, path))
    (chars : ∀ c ∈ raw, isUrlChar c = true) (noSeparator : hasEncodedSeparator raw = false)
    (nonempty : authority ≠ []) (noUser : '@' ∉ authority) (noDots : hasDotSegment path = false) :
    parseTrustedUrl hosts raw =
      match HttpUrl.parse hosts scheme authority path with
      | none => .error "must be a valid URL"
      | some url => .ok (.of url (popEmpty ((url.pathname.splitOn '/').drop 1))) := by
  have space : raw.any isWhitespaceOrControl = false :=
    List.any_eq_false.mpr fun c mem => by simp [isWhitespaceOrControl_of_isUrlChar (chars c mem)]
  have excludes : ∀ c, isUrlChar c = false → raw.contains c = false := by
    intro c excluded
    by_contra found
    have mem := List.contains_iff_mem.mp ((Bool.not_eq_false _).mp found)
    rw [chars c mem] at excluded
    cases excluded
  have user : authority.contains '@' = false := by simpa using noUser
  simp only [parseTrustedUrl, parts, space, excludes '\\' (by decide), noSeparator,
    excludes '?' (by decide), excludes '#' (by decide), nonempty, user, noDots, Bool.false_eq_true,
    if_false]

theorem isUrlChar_href {hosts : HostParser} {url : HttpUrl} {text : List Char}
    (parsed : HttpUrl.parseAuthority hosts url.scheme text = some (url.host, url.port))
    {segments : List (List Char)} (clean : ∀ segment ∈ segments, CleanSegment segment) :
    ∀ c ∈ hrefOf url.origin segments, isUrlChar c = true := by
  intro c mem
  rw [hrefOf_eq, HttpUrl.origin] at mem
  rcases List.mem_append.mp mem with mem | mem
  · rcases List.mem_append.mp mem with mem | mem
    · exact (scheme_chars url.scheme c mem).1
    · exact isUrlChar_of_isHostChar (HttpUrl.isHostChar_authority parsed c mem)
  · exact isUrlChar_hrefPath clean c mem

/-- An href that is put together from clean segments gives them back, less an empty one at the
end. -/
theorem parseTrustedUrl_href {hosts : HostParser} {url : HttpUrl} {text : List Char}
    (parsed : HttpUrl.parseAuthority hosts url.scheme text = some (url.host, url.port))
    {segments : List (List Char)} (clean : ∀ segment ∈ segments, CleanSegment segment)
    (noSeparator : hasEncodedSeparator (hrefPath segments) = false) :
    parseTrustedUrl hosts (hrefOf url.origin segments) = .ok (.of url (popEmpty segments)) := by
  have hostChars := HttpUrl.isHostChar_authority parsed
  have pathChars := isUrlChar_hrefPath clean
  have notIn : ∀ c, isHostChar c = false → c ∉ HttpUrl.authority url.host url.port := by
    intro c excluded mem
    rw [hostChars c mem] at excluded
    cases excluded
  have starts : hrefPath segments = [] ∨ ∃ rest, hrefPath segments = '/' :: rest := by
    unfold hrefPath
    split
    · exact Or.inl rfl
    · exact Or.inr ⟨_, rfl⟩
  have noSlash : ∀ c ∈ HttpUrl.authority url.host url.port, c ≠ '/' :=
    fun c mem same => notIn '/' (by decide) (same ▸ mem)
  have parts := urlParts_of_parts url.scheme noSlash starts
    (fun c mem => isLineTerminator_of_isUrlChar (pathChars c mem))
  have chars := isUrlChar_href parsed clean
  rw [hrefOf_eq, HttpUrl.origin] at chars
  have separator : hasEncodedSeparator (url.scheme.text ++ [':', '/', '/'] ++
      HttpUrl.authority url.host url.port ++ hrefPath segments) = false := by
    rw [hasEncodedSeparator_of_no_percent]
    · exact noSeparator
    · intro mem
      rcases List.mem_append.mp mem with mem | mem
      · exact (scheme_chars url.scheme _ mem).2 rfl
      · exact notIn '%' (by decide) mem
  rw [hrefOf_eq, HttpUrl.origin, parseTrustedUrl_of_parts parts chars separator
    (HttpUrl.authority_ne_nil parsed) (notIn '@' (by decide)) (hasDotSegment_hrefPath clean),
    HttpUrl.parse, HttpUrl.parse_authority parsed]
  dsimp only [Option.map_some]
  rw [encodePath_hrefPath clean, List.splitOn_cons_eq_if_modifyHead, if_pos (beq_self_eq_true _),
    List.drop_succ_cons, List.drop_zero, splitOn_hrefPath clean]
  cases segments with
  | nil => rfl
  | cons segment segments => rfl

/-! ## What is accepted -/

theorem not_mem_of_mem_splitOn {sep : Char} : ∀ {text segment : List Char},
    segment ∈ text.splitOn sep → sep ∉ segment
  | [], segment, mem => by
      obtain rfl : segment = [] := by simpa using mem
      exact List.not_mem_nil
  | c :: text, segment, mem => by
      rw [List.splitOn_cons_eq_if_modifyHead] at mem
      split at mem
      · rcases List.mem_cons.mp mem with rfl | mem
        · exact List.not_mem_nil
        · exact not_mem_of_mem_splitOn mem
      · rename_i other
        obtain ⟨first, others, isCons⟩ := List.exists_cons_of_ne_nil (List.splitOn_ne_nil sep text)
        have inText : ∀ segment ∈ first :: others, sep ∉ segment := fun segment mem =>
          not_mem_of_mem_splitOn (isCons ▸ mem)
        rw [isCons, List.modifyHead_cons] at mem
        rcases List.mem_cons.mp mem with rfl | mem
        · intro isSep
          rcases List.mem_cons.mp isSep with rfl | isSep
          · exact other (beq_self_eq_true _)
          · exact inText first List.mem_cons_self isSep
        · exact inText segment (List.mem_cons_of_mem _ mem)

/-- The text ends in two slashes. -/
def endsInTwoSlashes (text : List Char) : Bool := text.reverse.take 2 = ['/', '/']

theorem intercalate_append_nil {sep : Char} : ∀ {segments : List (List Char)}, segments ≠ [] →
    [sep].intercalate (segments ++ [[]]) = [sep].intercalate segments ++ [sep]
  | [segment], _ => by simp
  | segment :: next :: segments, _ => by
      have rest : [sep].intercalate (next :: segments ++ [[]]) =
          [sep].intercalate (next :: segments) ++ [sep] :=
        intercalate_append_nil (List.cons_ne_nil next segments)
      rw [List.cons_append] at rest
      rw [List.cons_append, List.cons_append, List.intercalate_cons_cons, rest,
        List.intercalate_cons_cons]
      simp

/-- A path is one whose last segment is empty if and only if it ends in a slash. -/
theorem getLast?_splitOn {text : List Char} :
    (text.splitOn '/').getLast? = some [] ↔ text = [] ∨ ∃ front, text = front ++ ['/'] := by
  constructor
  · intro last
    obtain ⟨segments, isConcat⟩ := List.getLast?_eq_some_iff.mp last
    have joined : ['/'].intercalate (text.splitOn '/') = text := List.intercalate_splitOn '/'
    rw [isConcat] at joined
    by_cases empty : segments = []
    · rw [empty] at joined
      exact Or.inl (by simpa using joined.symm)
    · rw [intercalate_append_nil empty] at joined
      exact Or.inr ⟨_, joined.symm⟩
  · rintro (rfl | ⟨front, rfl⟩)
    · rfl
    · rw [List.splitOn_append_cons_self]
      simp

theorem encodePath_eq_nil {path : List Char} (h : HttpUrl.encodePath path = []) : path = [] := by
  cases path with
  | nil => rfl
  | cons c path =>
      rw [HttpUrl.encodePath, List.flatMap_cons] at h
      have empty := (List.append_eq_nil_iff.mp h).1
      cases encoded : HttpUrl.inPathSet c with
      | true =>
          obtain ⟨rest, isCons⟩ := HttpUrl.encodeChar_eq_cons encoded
          simp [isCons] at empty
      | false => simp [HttpUrl.encodeChar_of_plain encoded] at empty

theorem encodePath_append (front back : List Char) :
    HttpUrl.encodePath (front ++ back) = HttpUrl.encodePath front ++ HttpUrl.encodePath back :=
  List.flatMap_append

/-- An encoded path ends in a slash exactly when the path does. -/
theorem encodePath_ends {path : List Char} :
    (∃ front, HttpUrl.encodePath path = front ++ ['/']) ↔ ∃ front, path = front ++ ['/'] := by
  constructor
  · rintro ⟨front, ends⟩
    rcases List.eq_nil_or_concat' path with rfl | ⟨init, c, rfl⟩
    · simp [HttpUrl.encodePath] at ends
    · by_cases slash : c = '/'
      · exact ⟨init, by rw [slash]⟩
      · have last := congrArg List.getLast? ends
        have nonempty : HttpUrl.encodePath [c] ≠ [] := fun empty => by cases encodePath_eq_nil empty
        obtain ⟨start, d, isConcat⟩ := (List.eq_nil_or_concat' (HttpUrl.encodePath [c])).resolve_left nonempty
        rw [encodePath_append, isConcat] at last
        simp at last
        have mem : '/' ∈ HttpUrl.encodePath [c] := by rw [isConcat, last]; simp
        exact absurd (by simpa [HttpUrl.encodePath] using mem) (HttpUrl.slash_not_mem_encodeChar slash)
  · rintro ⟨front, rfl⟩
    exact ⟨HttpUrl.encodePath front, by rw [encodePath_append]; rfl⟩

/-- When one empty segment has been dropped, the last one is still empty if and only if the path
ends in two slashes. -/
theorem getLast?_popEmpty (path : List Char) :
    (popEmpty ((HttpUrl.encodePath path).splitOn '/')).getLast? = some [] ↔
      endsInTwoSlashes ('/' :: path) = true := by
  rcases List.eq_nil_or_concat' path with rfl | ⟨front, c, rfl⟩
  · decide
  · by_cases slash : c = '/'
    · subst slash
      have popped : popEmpty ((HttpUrl.encodePath (front ++ ['/'])).splitOn '/') =
          (HttpUrl.encodePath front).splitOn '/' := by
        rw [encodePath_append, show HttpUrl.encodePath ['/'] = ['/'] from rfl,
          List.splitOn_append_cons_self]
        simp [popEmpty]
      rw [popped, getLast?_splitOn, encodePath_ends]
      rcases List.eq_nil_or_concat' front with rfl | ⟨start, d, rfl⟩
      · simp [HttpUrl.encodePath, endsInTwoSlashes]
      · have nonempty : HttpUrl.encodePath (start ++ [d]) ≠ [] := fun empty => by
          simpa using encodePath_eq_nil empty
        simp only [nonempty, false_or]
        simp [endsInTwoSlashes]
    · have last : ((HttpUrl.encodePath (front ++ [c])).splitOn '/').getLast? ≠ some [] := by
        rw [Ne, getLast?_splitOn, encodePath_ends]
        rintro (empty | ⟨start, ends⟩)
        · simpa using encodePath_eq_nil empty
        · exact slash (by simpa using (List.append_inj_right' ends rfl))
      rw [popEmpty, if_neg last]
      simp [last, endsInTwoSlashes, slash]

/-- The parts of the raw text. -/
theorem urlParts_spec {raw authority path : List Char} {scheme : HttpScheme}
    (parts : urlParts raw = some (scheme, authority, path)) :
    (∃ front, raw = front ++ authority ++ path) ∧ '/' ∉ authority ∧
      (path = [] ∨ ∃ rest, path = '/' :: rest) := by
  have dropped : ∀ rest, dropScheme raw = some (scheme, rest) → ∃ front, raw = front ++ rest := by
    intro rest isRest
    unfold dropScheme at isRest
    split at isRest
    · cases isRest
      exact ⟨raw.take 7, (List.take_append_drop 7 raw).symm⟩
    · split at isRest
      · cases isRest
        exact ⟨raw.take 8, (List.take_append_drop 8 raw).symm⟩
      · cases isRest
  unfold urlParts at parts
  split at parts
  · cases parts
  · rename_i scheme' rest isRest
    dsimp only at parts
    split at parts
    · cases parts
    · cases parts
      obtain ⟨front, isRaw⟩ := dropped rest isRest
      refine ⟨⟨front, ?_⟩, fun mem => ?_, ?_⟩
      · rw [List.append_assoc, List.takeWhile_append_dropWhile]
        exact isRaw
      · simpa using List.mem_takeWhile_imp mem
      · cases isPath : rest.dropWhile (· ≠ '/') with
        | nil => exact Or.inl rfl
        | cons c path =>
            have first := List.head?_dropWhile_not (· ≠ '/') rest
            rw [isPath] at first
            exact Or.inr ⟨path, by simpa using first⟩

theorem endsInTwoSlashes_append {front authority path : List Char} (nonempty : authority ≠ [])
    (noSlash : '/' ∉ authority) (starts : path = [] ∨ ∃ rest, path = '/' :: rest) :
    endsInTwoSlashes (front ++ authority ++ path) = endsInTwoSlashes path := by
  obtain ⟨init, c, rfl⟩ := (List.eq_nil_or_concat' authority).resolve_left nonempty
  have other : c ≠ '/' := fun slash => noSlash (by simp [slash])
  rcases List.eq_nil_or_concat' path with rfl | ⟨start, d, rfl⟩
  · simp [endsInTwoSlashes, other]
  · rcases List.eq_nil_or_concat' start with rfl | ⟨start, e, rfl⟩
    · simp [endsInTwoSlashes, other]
    · simp [endsInTwoSlashes]

/-- What an encoded path is split into, where the path is without dot segments and backslashes. -/
theorem cleanSegment_encodePath {path : List Char} (noDots : hasDotSegment ('/' :: path) = false)
    (noBackslash : '\\' ∉ path) :
    ∀ segment ∈ (HttpUrl.encodePath path).splitOn '/', CleanSegment segment := by
  intro segment mem
  have noSlash := not_mem_of_mem_splitOn mem
  rw [HttpUrl.splitOn_encodePath] at mem
  obtain ⟨source, isSegment, rfl⟩ := List.mem_map.mp mem
  rw [hasDotSegment, List.splitOn_cons_eq_if_modifyHead, if_pos (beq_self_eq_true _)] at noDots
  have plain := List.any_eq_false.mp noDots source (List.mem_cons_of_mem _ isSegment)
  constructor
  · constructor <;>
    · intro dots
      have same : HttpUrl.encodePath source = source :=
        HttpUrl.encodePath_of_no_percent (by rw [dots]; decide)
      rw [same] at dots
      simp [dots] at plain
  · intro c mem
    obtain ⟨inSet, kind⟩ := HttpUrl.mem_encodePath mem
    refine ⟨fun slash => noSlash (slash ▸ mem), ?_, inSet⟩
    rintro rfl
    rcases kind with inSource | percent | alphanum
    · exact noBackslash (mem_of_mem_splitOn isSegment inSource)
    · exact absurd percent (by decide)
    · exact absurd alphanum (by decide)

/-- The parts of a raw text that is accepted. -/
structure Accepted (hosts : HostParser) (raw : List Char) (t : TrustedUrl) (url : HttpUrl)
    (path : List Char) : Prop where
  parsed : ∃ text, HttpUrl.parseAuthority hosts url.scheme text = some (url.host, url.port)
  result : t = .of url (popEmpty ((HttpUrl.encodePath path).splitOn '/'))
  clean : ∀ segment ∈ (HttpUrl.encodePath path).splitOn '/', CleanSegment segment
  noSeparator : hasEncodedSeparator (HttpUrl.encodePath path) = false
  ends : endsInTwoSlashes raw = endsInTwoSlashes ('/' :: path)

theorem parseTrustedUrl_accepted {hosts : HostParser} {raw : List Char} {t : TrustedUrl}
    (accepted : parseTrustedUrl hosts raw = .ok t) :
    ∃ url path, Accepted hosts raw t url path := by
  unfold parseTrustedUrl at accepted
  split at accepted
  · cases accepted
  · rename_i scheme authority path parts
    obtain ⟨⟨front, isRaw⟩, noSlash, starts⟩ := urlParts_spec parts
    split_ifs at accepted with space backslash separator query fragment empty user dots
    split at accepted
    · cases accepted
    · rename_i url isUrl
      obtain ⟨⟨host, port⟩, parsed, same⟩ := Option.map_eq_some_iff.mp isUrl
      subst same
      cases accepted
      have inPath : hasEncodedSeparator path = false := by
        rw [isRaw, Bool.not_eq_true] at separator
        exact (hasEncodedSeparator_append separator).2
      have noSeparator : hasEncodedSeparator (path.drop 1) = false := by
        rcases starts with rfl | ⟨rest, rfl⟩
        · rfl
        · simpa [hasEncodedSeparator] using inPath
      have noDots : hasDotSegment ('/' :: path.drop 1) = false := by
        rcases starts with rfl | ⟨rest, rfl⟩
        · decide
        · simpa using dots
      refine ⟨{ scheme, host, port, pathname := '/' :: HttpUrl.encodePath (path.drop 1) },
        path.drop 1, ⟨authority, parsed⟩, ?_, ?_, ?_, ?_⟩
      · rw [List.splitOn_cons_eq_if_modifyHead, if_pos (beq_self_eq_true _)]
        rfl
      · exact cleanSegment_encodePath noDots fun mem => backslash (by
          rw [isRaw]
          simp [List.mem_of_mem_drop mem])
      · exact hasEncodedSeparator_encodePath noSeparator
      · rw [isRaw, endsInTwoSlashes_append empty noSlash starts]
        rcases starts with rfl | ⟨rest, rfl⟩
        · rfl
        · rfl

namespace Accepted

variable {hosts : HostParser} {raw path : List Char} {t : TrustedUrl} {url : HttpUrl}

theorem mem_popEmpty {segments : List (List Char)} {segment : List Char}
    (mem : segment ∈ popEmpty segments) : segment ∈ segments := by
  unfold popEmpty at mem
  split at mem
  · exact (List.dropLast_sublist _).mem mem
  · exact mem

theorem clean_segments (accepted : Accepted hosts raw t url path) :
    ∀ segment ∈ t.segments, CleanSegment segment := by
  rw [accepted.result]
  exact fun segment mem => accepted.clean segment (mem_popEmpty mem)

/-- The path of the href is the beginning of the path that was read. -/
theorem separator_segments (accepted : Accepted hosts raw t url path) :
    hasEncodedSeparator (hrefPath t.segments) = false := by
  have joined : ['/'].intercalate ((HttpUrl.encodePath path).splitOn '/') = HttpUrl.encodePath path :=
    List.intercalate_splitOn '/'
  have noSeparator := accepted.noSeparator
  have slash : ∀ text, hasEncodedSeparator ('/' :: text) = hasEncodedSeparator text := by
    intro text
    simp [hasEncodedSeparator]
  rw [accepted.result, TrustedUrl.of, popEmpty]
  split
  · rename_i last
    obtain ⟨segments, isConcat⟩ := List.getLast?_eq_some_iff.mp last
    rw [isConcat, List.dropLast_concat, hrefPath]
    split
    · rfl
    · rename_i nonempty
      rw [isConcat, intercalate_append_nil nonempty] at joined
      rw [← joined] at noSeparator
      rw [slash]
      exact (hasEncodedSeparator_append noSeparator).1
  · rw [hrefPath, if_neg (List.splitOn_ne_nil _ _), slash, joined]
    exact noSeparator

theorem href_eq (accepted : Accepted hosts raw t url path) : t.href = hrefOf url.origin t.segments := by
  rw [accepted.result]
  rfl

theorem isUrlChar_href (accepted : Accepted hosts raw t url path) : ∀ c ∈ t.href, isUrlChar c = true := by
  obtain ⟨text, parsed⟩ := accepted.parsed
  rw [accepted.href_eq]
  exact Enterprise.isUrlChar_href parsed accepted.clean_segments

/-- The href is accepted, and gives the URL with one more empty segment dropped. -/
theorem parse_href (accepted : Accepted hosts raw t url path) :
    parseTrustedUrl hosts t.href = .ok (.of url (popEmpty t.segments)) := by
  obtain ⟨text, parsed⟩ := accepted.parsed
  rw [accepted.href_eq]
  exact parseTrustedUrl_href parsed accepted.clean_segments accepted.separator_segments

theorem of_segments (accepted : Accepted hosts raw t url path) : .of url t.segments = t := by
  rw [accepted.result]
  rfl

theorem last_empty_iff (accepted : Accepted hosts raw t url path) :
    t.segments.getLast? = some [] ↔ endsInTwoSlashes raw = true := by
  rw [accepted.ends, accepted.result]
  exact getLast?_popEmpty path

/-- Without two slashes at its end, a URL is the same when its href is read. -/
theorem parse_href_eq (accepted : Accepted hosts raw t url path) (h : endsInTwoSlashes raw = false) :
    parseTrustedUrl hosts t.href = .ok t := by
  have last : t.segments.getLast? ≠ some [] := fun last => by
    rw [accepted.last_empty_iff.mp last] at h
    cases h
  rw [accepted.parse_href, popEmpty, if_neg last, accepted.of_segments]

/-- With two slashes, the href gets one character shorter, and there is one segment less. -/
theorem parse_href_shorter (accepted : Accepted hosts raw t url path)
    (h : endsInTwoSlashes raw = true) :
    ∃ t', parseTrustedUrl hosts t.href = .ok t' ∧ t'.origin = t.origin ∧
      t'.segments.length < t.segments.length ∧ t'.href.length < t.href.length := by
  obtain ⟨segments, isConcat⟩ := List.getLast?_eq_some_iff.mp (accepted.last_empty_iff.mpr h)
  have popped : popEmpty t.segments = segments := by
    rw [isConcat]
    simp [popEmpty]
  have longer : hrefOf url.origin (segments ++ [[]]) = hrefOf url.origin segments ++ ['/'] := by
    rw [hrefOf, hrefOf, if_neg (by simp)]
    by_cases empty : segments = []
    · simp [empty]
    · rw [if_neg empty, intercalate_append_nil empty]
      simp
  refine ⟨_, accepted.parse_href, ?_, ?_, ?_⟩
  · rw [accepted.result]
    rfl
  · rw [popped, isConcat]
    simp [TrustedUrl.of]
  · rw [popped, accepted.href_eq, isConcat, longer]
    simp [TrustedUrl.of]

end Accepted

end GhcpConsole.Enterprise
