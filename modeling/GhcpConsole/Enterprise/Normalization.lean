import GhcpConsole.Enterprise.RegistryFields
import GhcpConsole.Lib.Tx
import Mathlib.Data.List.Forall2

/-!
# Normal forms of registry fields

What a reader makes of a value it reads as the same value again. URLs are the exception: of the
empty segments at the end of a path each reading drops one, so that a URL that ends in two slashes
has a normal form which is not its own.
-/

namespace GhcpConsole.Enterprise

/-- A URL in the value ends in two slashes, where the field is one of URLs. -/
def hasTwoSlashes {ν : Type} (kind : FieldKind) (value : Json ν) : Bool :=
  match kind, value with
  | .url, .str text => endsInTwoSlashes (trim text.toList)
  | .loginUrl, .str text => endsInTwoSlashes (beforeQuery (trim text.toList))
  | .urlList, .arr items => items.any fun
      | .str text => endsInTwoSlashes (beforeQuery (trim text.toList))
      | _ => false
  | _, _ => false

section Texts

variable {ν : Type}

theorem readString_text (text : List Char) :
    readString (.str (String.ofList text) : Json ν) = .ok (trim text) := by
  rw [readString, String.toList_ofList]

theorem readString_eq_ok {value : Json ν} {text : List Char} (h : readString value = .ok text) :
    ∃ raw, value = .str raw ∧ text = trim raw.toList := by
  cases value <;> cases h
  exact ⟨_, rfl, rfl⟩

theorem readText_eq_ok {value : Json ν} {text : List Char} (h : readText value = .ok text) :
    (∃ raw : List Char, text = trim raw) ∧ text ≠ [] ∧
      ¬ (MAX_TEXT_LENGTH < utf16Length text || text.any isControlChar) = true := by
  obtain ⟨result, isString, h⟩ := except_bind_eq_ok.mp h
  obtain ⟨raw, _, rfl⟩ := readString_eq_ok isString
  split_ifs at h with empty long
  cases h
  exact ⟨⟨_, rfl⟩, empty, long⟩

theorem readText_of_fixed {text : List Char} (trimmed : trim text = text) (nonempty : text ≠ [])
    (short : ¬ (MAX_TEXT_LENGTH < utf16Length text || text.any isControlChar) = true) :
    readText (.str (String.ofList text) : Json ν) = .ok text := by
  rw [readText, readString_text, trimmed]
  simp only [bind, Except.bind, nonempty, short, if_false]
  rfl

theorem readText_again {value : Json ν} {text : List Char} (h : readText value = .ok text) :
    readText (.str (String.ofList text) : Json ν) = .ok text := by
  obtain ⟨⟨raw, rfl⟩, nonempty, short⟩ := readText_eq_ok h
  exact readText_of_fixed trim_trim nonempty short

theorem readSlug_again {value : Json ν} {slug : List Char} (h : readSlug value = .ok slug) :
    readSlug (.str (String.ofList slug) : Json ν) = .ok slug := by
  obtain ⟨text, isText, h⟩ := except_bind_eq_ok.mp h
  split at h
  · rename_i isSlug
    cases h
    rw [readSlug, readText_again isText]
    simp only [bind, Except.bind, isSlug, if_true]
  · cases h

end Texts

section Letters

variable {ν : Type} {letters : LowerCase}

/-- A lower-case letter, a digit, a dot or a dash. -/
def isDomainChar (c : Char) : Bool := isLowerAlnum c || c = '-' || c = '.'

theorem isDomainChar_spec {c : Char} (h : isDomainChar c = true) :
    isTrimmed c = false ∧ c.toNat < 128 ∧ c.toLower = c ∧ isControlChar c = false := by
  have table : ∀ n < 128, isDomainChar (Char.ofNat n) = true →
      isTrimmed (Char.ofNat n) = false ∧ (Char.ofNat n).toLower = Char.ofNat n ∧
        isControlChar (Char.ofNat n) = false := by
    decide
  have small : c.toNat < 128 := by
    have le_iff : ∀ a b : Char, a ≤ b ↔ a.toNat ≤ b.toNat := fun a b => UInt32.le_iff_toNat_le
    simp only [isDomainChar, isLowerAlnum, Bool.or_eq_true, Bool.and_eq_true, decide_eq_true_eq,
      le_iff] at h
    rcases h with ((letter | digit) | rfl) | rfl
    · exact Nat.lt_of_le_of_lt letter.2 (by decide)
    · exact Nat.lt_of_le_of_lt digit.2 (by decide)
    · decide
    · decide
  have spec := table c.toNat small
  rw [Char.ofNat_toNat] at spec
  obtain ⟨kept, lower, control⟩ := spec h
  exact ⟨kept, small, lower, control⟩

theorem trim_of_domainChars {text : List Char} (chars : ∀ c ∈ text, isDomainChar c = true) :
    trim text = text := by
  rw [trim, trimStart_eq_self fun c first => (isDomainChar_spec (chars c (List.mem_of_mem_head? first))).1,
    trimEnd_eq_self fun c last => (isDomainChar_spec (chars c (List.mem_of_mem_getLast? last))).1]

theorem toLowerCase_of_domainChars {text : List Char} (chars : ∀ c ∈ text, isDomainChar c = true) :
    letters.toLowerCase text = text := by
  rw [letters.ascii text fun c mem => (isDomainChar_spec (chars c mem)).2.1]
  calc text.map Char.toLower = text.map id :=
        List.map_congr_left fun c mem => (isDomainChar_spec (chars c mem)).2.2.1
    _ = text := List.map_id text

theorem readShortcode_again {value : Json ν} {shortcode : List Char}
    (h : readShortcode letters value = .ok shortcode) :
    readShortcode letters (.str (String.ofList shortcode) : Json ν) = .ok shortcode := by
  obtain ⟨text, _, h⟩ := except_bind_eq_ok.mp h
  dsimp only at h
  split at h
  · cases h
  · rename_i kept
    cases h
    generalize letters.toLowerCase text = shortcode at kept
    have chars : ∀ c ∈ shortcode, isDomainChar c = true := by
      intro c mem
      have matched : isShortcode shortcode = true := by
        simpa [List.ne_nil_of_mem mem] using kept
      have alnum := List.all_eq_true.mp (Bool.and_eq_true_iff.mp matched).2 c mem
      simp [isDomainChar, alnum]
    rw [readShortcode, readString_text, trim_of_domainChars chars]
    simp only [bind, Except.bind, toLowerCase_of_domainChars chars]
    rw [if_neg kept]

theorem domainChars_of_isEmailDomain {domain : List Char} (h : isEmailDomain domain = true) :
    (∀ c ∈ domain, isDomainChar c = true) ∧ domain ≠ [] ∧ utf16Length domain ≤ 253 := by
  simp only [isEmailDomain, Bool.and_eq_true, decide_eq_true_eq, List.all_eq_true] at h
  obtain ⟨⟨⟨length, many⟩, labels⟩, _⟩ := h
  refine ⟨fun c mem => ?_, ?_, length⟩
  · have joined : ['.'].intercalate (domain.splitOn '.') = domain := List.intercalate_splitOn '.'
    rw [← joined] at mem
    rcases mem_intercalate mem with rfl | ⟨label, isLabel, mem⟩
    · decide
    · have matched := labels label isLabel
      simp only [isDomainLabel, Bool.and_eq_true, List.all_eq_true] at matched
      have kind := matched.1.1.2 c mem
      simp only [isDomainChar, kind, Bool.true_or]
  · rintro rfl
    exact absurd many (by decide)

theorem readDomain_again {value : Json ν} {domain : List Char}
    (h : readDomain letters value = .ok domain) :
    readDomain letters (.str (String.ofList domain) : Json ν) = .ok domain := by
  obtain ⟨text, _, h⟩ := except_bind_eq_ok.mp h
  dsimp only at h
  split at h
  · rename_i valid
    cases h
    generalize letters.toLowerCase text = domain at valid
    obtain ⟨chars, nonempty, length⟩ := domainChars_of_isEmailDomain valid
    have short : ¬ (MAX_TEXT_LENGTH < utf16Length domain || domain.any isControlChar) = true := by
      have control : domain.any isControlChar = false :=
        List.any_eq_false.mpr fun c mem => by simp [(isDomainChar_spec (chars c mem)).2.2.2]
      have small : ¬ MAX_TEXT_LENGTH < utf16Length domain := by
        unfold MAX_TEXT_LENGTH
        omega
      simp [control, small]
    rw [readDomain, readText_of_fixed (trim_of_domainChars chars) nonempty short]
    simp only [bind, Except.bind, toLowerCase_of_domainChars chars]
    rw [if_pos valid]
  · cases h

end Letters

section Urls

variable {ν : Type} {hosts : HostParser} {raw : List Char} {t : TrustedUrl}

/-- An href is left alone by what is done to a text before it is parsed. -/
theorem trim_href (accepted : parseTrustedUrl hosts raw = .ok t) : trim t.href = t.href := by
  obtain ⟨url, path, accepted⟩ := parseTrustedUrl_accepted accepted
  have kept : ∀ c ∈ t.href, isTrimmed c = false := fun c mem =>
    (Bool.or_eq_false_iff.mp (Bool.or_eq_false_iff.mp
      (isWhitespaceOrControl_of_isUrlChar (accepted.isUrlChar_href c mem))).1).1
  rw [trim, trimStart_eq_self fun c first => kept c (List.mem_of_mem_head? first),
    trimEnd_eq_self fun c last => kept c (List.mem_of_mem_getLast? last)]

theorem beforeQuery_href (accepted : parseTrustedUrl hosts raw = .ok t) : beforeQuery t.href = t.href := by
  obtain ⟨url, path, accepted⟩ := parseTrustedUrl_accepted accepted
  refine List.takeWhile_eq_self_iff.mpr fun c mem => ?_
  have plain := accepted.isUrlChar_href c mem
  simp only [isUrlChar, Bool.and_eq_true, decide_eq_true_eq] at plain
  simp [plain.1.2, plain.2]

/-- The href of a URL is read as the same URL, unless the URL ends in two slashes. -/
theorem parseTrustedUrl_again (accepted : parseTrustedUrl hosts raw = .ok t)
    (single : endsInTwoSlashes raw = false) : parseTrustedUrl hosts t.href = .ok t := by
  obtain ⟨url, path, accepted⟩ := parseTrustedUrl_accepted accepted
  exact accepted.parse_href_eq single

theorem parseTrustedUrl_shorter (accepted : parseTrustedUrl hosts raw = .ok t)
    (double : endsInTwoSlashes raw = true) :
    ∃ t', parseTrustedUrl hosts t.href = .ok t' ∧ t'.origin = t.origin ∧
      t'.segments.length < t.segments.length ∧ t'.href.length < t.href.length := by
  obtain ⟨url, path, accepted⟩ := parseTrustedUrl_accepted accepted
  exact accepted.parse_href_shorter double

theorem href_again_iff (accepted : parseTrustedUrl hosts raw = .ok t) :
    (∃ t', parseTrustedUrl hosts t.href = .ok t' ∧ t'.href = t.href) ↔ endsInTwoSlashes raw = false := by
  constructor
  · rintro ⟨t', again, same⟩
    by_contra double
    obtain ⟨shorter, again', _, _, length⟩ :=
      parseTrustedUrl_shorter accepted ((Bool.not_eq_false _).mp double)
    obtain rfl := Except.ok.inj (again.symm.trans again')
    rw [same] at length
    omega
  · intro single
    exact ⟨t, parseTrustedUrl_again accepted single, rfl⟩

/-- The reading of an href, with or without a query dropped before. -/
theorem parseLoginUrl_href (accepted : parseTrustedUrl hosts raw = .ok t) :
    parseLoginUrl hosts t.href = parseTrustedUrl hosts t.href := by
  rw [parseLoginUrl, beforeQuery_href accepted]

theorem parseGithubBaseUrl_origin {url : HttpUrl} {text : List Char}
    (parsed : HttpUrl.parseAuthority hosts url.scheme text = some (url.host, url.port))
    (trimmed : trim url.origin = url.origin) : parseGithubBaseUrl hosts url.origin = .ok url.origin := by
  have noSlash : ∀ c ∈ HttpUrl.authority url.host url.port, c ≠ '/' := by
    rintro c mem rfl
    exact absurd (HttpUrl.isHostChar_authority parsed _ mem) (by decide)
  have parts := urlParts_of_parts url.scheme noSlash (Or.inl rfl) (fun c mem => by cases mem)
  rw [List.append_nil, show url.scheme.text ++ [':', '/', '/'] ++
    HttpUrl.authority url.host url.port = url.origin from rfl] at parts
  have nonempty : url.origin ≠ [] := by simp [HttpUrl.origin]
  simp only [parseGithubBaseUrl, trimmed, nonempty, if_false, parts, Option.bind_some, HttpUrl.parse,
    HttpUrl.parse_authority parsed, Option.map_some]
  rfl

/-- An origin is read as itself, as an origin and as the base URL of GitHub. -/
theorem readOrigin_again {value : Json ν} {origin : List Char}
    (h : readOrigin hosts value = .ok origin) :
    readOrigin hosts (.str (String.ofList origin) : Json ν) = .ok origin ∧
      parseGithubBaseUrl hosts origin = .ok origin := by
  obtain ⟨text, _, h⟩ := except_bind_eq_ok.mp h
  obtain ⟨t, isUrl, h⟩ := except_bind_eq_ok.mp h
  split at h
  · cases h
  · rename_i noPath
    cases h
    have trimmed := trim_href isUrl
    obtain ⟨url, path, accepted⟩ := parseTrustedUrl_accepted isUrl
    have empty : t.segments = [] := by simpa using noPath
    have single : endsInTwoSlashes text = false := by
      by_contra double
      have last := accepted.last_empty_iff.mpr ((Bool.not_eq_false _).mp double)
      rw [empty] at last
      cases last
    have isOrigin : t.href = t.origin := by
      rw [accepted.href_eq, empty, accepted.result]
      rfl
    rw [isOrigin] at trimmed
    have again := accepted.parse_href_eq single
    rw [isOrigin] at again
    constructor
    · rw [readOrigin, readString_text, trimmed]
      simp only [bind, Except.bind, again]
      rw [if_neg noPath]
    · obtain ⟨authority, parsed⟩ := accepted.parsed
      have isUrlOrigin : t.origin = url.origin := by
        rw [accepted.result]
        rfl
      rw [isUrlOrigin] at trimmed ⊢
      exact parseGithubBaseUrl_origin parsed trimmed

end Urls

section Lists

variable {ν : Type} (hosts : HostParser)

/-- An entry of a list of URLs, and its href. -/
def ReadsAs (item : Json ν) (href : List Char) : Prop :=
  ∃ url, (readString item >>= parseLoginUrl hosts) = .ok url ∧ url.href = href

variable {hosts}

theorem readEntry_eq_ok {item : Json ν} {index : Nat} {href : List Char} :
    readEntry hosts item index = .ok href ↔ ReadsAs hosts item href := by
  unfold readEntry ReadsAs
  constructor
  · intro h
    split at h
    · rename_i url isUrl
      exact ⟨url, isUrl, Except.ok.inj h⟩
    · cases h
  · rintro ⟨url, isUrl, rfl⟩
    rw [isUrl]

theorem readEntries_iff : ∀ (items : List (Json ν)) (start : Nat) (hrefs : List (List Char)),
    ((items.zipIdx start).mapM fun (item, index) => readEntry hosts item index) = .ok hrefs ↔
      List.Forall₂ (ReadsAs hosts) items hrefs
  | [], start, hrefs => by
      cases hrefs with
      | nil => exact ⟨fun _ => .nil, fun _ => rfl⟩
      | cons href hrefs =>
          constructor
          · intro h
            cases h
          · intro h
            cases h
  | item :: items, start, hrefs => by
      rw [List.zipIdx_cons, List.mapM_cons, except_bind_eq_ok]
      have rest := readEntries_iff items (start + 1)
      constructor
      · rintro ⟨href, first, h⟩
        obtain ⟨others, later, h⟩ := except_bind_eq_ok.mp h
        cases h
        exact .cons (readEntry_eq_ok.mp first) ((rest others).mp later)
      · rintro (_ | ⟨first, others⟩)
        exact ⟨_, readEntry_eq_ok.mpr first, except_bind_eq_ok.mpr ⟨_, (rest _).mpr others, rfl⟩⟩

/-- An entry is read as itself exactly when its URL does not end in two slashes. -/
theorem ReadsAs.again_iff {item : Json ν} {href : List Char} (h : ReadsAs hosts item href) :
    ReadsAs hosts (.str (String.ofList href) : Json ν) href ↔
      ∀ text, item = .str text → endsInTwoSlashes (beforeQuery (trim text.toList)) = false := by
  obtain ⟨url, isUrl, rfl⟩ := h
  obtain ⟨text, isString, accepted⟩ := except_bind_eq_ok.mp isUrl
  obtain ⟨raw, rfl, rfl⟩ := readString_eq_ok isString
  have reads : (readString (.str (String.ofList url.href) : Json ν) >>= parseLoginUrl hosts) =
      parseTrustedUrl hosts url.href := by
    rw [readString_text, trim_href accepted]
    exact parseLoginUrl_href accepted
  rw [ReadsAs, reads, href_again_iff accepted]
  constructor
  · rintro single text same
    cases same
    exact single
  · exact fun single => single raw rfl

theorem readUrlList_again_iff {value : Json ν} {hrefs : List (List Char)}
    (h : readUrlList hosts value = .ok hrefs) :
    readUrlList hosts (FieldValue.urls hrefs : FieldValue ν).toJson = .ok hrefs ↔
      hasTwoSlashes .urlList value = false := by
  cases value with
  | arr items =>
      rw [readUrlList] at h
      split at h
      · cases h
      · rename_i count
        have entries := (readEntries_iff items 0 hrefs).mp h
        rw [FieldValue.toJson, readUrlList, List.length_map, ← entries.length_eq, if_neg count,
          readEntries_iff, List.forall₂_map_left_iff]
        rw [hasTwoSlashes]
        clear h count
        induction entries with
        | nil => exact ⟨fun _ => rfl, fun _ => .nil⟩
        | @cons item href items hrefs first _ ih =>
            rw [List.forall₂_cons, first.again_iff, List.any_cons, Bool.or_eq_false_iff]
            refine and_congr ?_ ih
            cases item <;> simp
  | _ => cases h

end Lists

section Kinds

variable {ν : Type}

theorem readProvider_again {value : Json ν} {provider : List Char}
    (h : readProvider value = .ok provider) :
    readProvider (.str (String.ofList provider) : Json ν) = .ok provider := by
  cases value with
  | str value =>
      rw [readProvider] at h
      split at h
      · rename_i known
        cases h
        rw [String.ofList_toList, readProvider, if_pos known]
      · cases h
  | _ => cases h

theorem readSecretRef_again {value : Json ν} {ref : SecretRef} (h : readSecretRef value = .ok ref) :
    readSecretRef (FieldValue.secret ref : FieldValue ν).toJson = .ok ref := by
  unfold readSecretRef at h
  split at h
  · split at h
    · rename_i valid
      cases h
      rw [FieldValue.toJson, readSecretRef, if_pos valid]
    · cases h
  · split at h
    · rename_i valid
      cases h
      rw [FieldValue.toJson, readSecretRef, if_pos valid]
    · cases h
  · cases h

variable [JsInteger ν] {hosts : HostParser} {letters : LowerCase}

theorem readCount_again {value : Json ν} {count : ν} (h : readCount value = .ok count) :
    readCount (.num count : Json ν) = .ok count := by
  cases value with
  | num value =>
      rw [readCount] at h
      split at h
      · rename_i valid
        cases h
        rw [readCount, if_pos valid]
      · cases h
  | _ => cases h

theorem map_eq_ok {ε α β : Type} {x : Except ε α} {f : α → β} {b : β} :
    f <$> x = .ok b ↔ ∃ a, x = .ok a ∧ f a = b := except_map_eq_ok

/-- A normal form is read as itself, except where a URL ends in two slashes. -/
theorem normalizer_again_iff {kind : FieldKind} {value : Json ν} {normal : FieldValue ν}
    (h : normalizer hosts letters kind value = .ok normal) :
    normalizer hosts letters kind normal.toJson = .ok normal ↔ hasTwoSlashes kind value = false := by
  cases kind with
  | text =>
      obtain ⟨text, isText, rfl⟩ := map_eq_ok.mp h
      exact ⟨fun _ => rfl, fun _ => map_eq_ok.mpr ⟨text, readText_again isText, rfl⟩⟩
  | githubBaseUrl =>
      obtain ⟨baseUrl, inner, rfl⟩ := map_eq_ok.mp h
      obtain ⟨origin, isOrigin, isBase⟩ := except_bind_eq_ok.mp inner
      obtain ⟨originAgain, baseAgain⟩ := readOrigin_again isOrigin
      obtain rfl := Except.ok.inj (isBase.symm.trans baseAgain)
      exact ⟨fun _ => rfl, fun _ => map_eq_ok.mpr
        ⟨_, except_bind_eq_ok.mpr ⟨_, originAgain, baseAgain⟩, rfl⟩⟩
  | url =>
      obtain ⟨url, inner, rfl⟩ := map_eq_ok.mp h
      obtain ⟨text, isString, accepted⟩ := except_bind_eq_ok.mp inner
      obtain ⟨raw, rfl, rfl⟩ := readString_eq_ok isString
      rw [hasTwoSlashes, ← href_again_iff accepted]
      simp only [normalizer, FieldValue.toJson, readString_text, trim_href accepted, map_eq_ok]
      simp [bind, Except.bind]
  | loginUrl =>
      obtain ⟨url, inner, rfl⟩ := map_eq_ok.mp h
      obtain ⟨text, isString, accepted⟩ := except_bind_eq_ok.mp inner
      obtain ⟨raw, rfl, rfl⟩ := readString_eq_ok isString
      rw [hasTwoSlashes, ← href_again_iff accepted]
      simp only [normalizer, FieldValue.toJson, readString_text, trim_href accepted, map_eq_ok]
      simp [bind, Except.bind, parseLoginUrl_href accepted]
  | urlList =>
      obtain ⟨hrefs, isList, rfl⟩ := map_eq_ok.mp h
      rw [← readUrlList_again_iff isList, normalizer, map_eq_ok]
      simp
  | slug =>
      obtain ⟨slug, isSlug, rfl⟩ := map_eq_ok.mp h
      exact ⟨fun _ => rfl, fun _ => map_eq_ok.mpr ⟨slug, readSlug_again isSlug, rfl⟩⟩
  | shortcode =>
      obtain ⟨shortcode, isShortcode, rfl⟩ := map_eq_ok.mp h
      exact ⟨fun _ => rfl, fun _ => map_eq_ok.mpr ⟨shortcode, readShortcode_again isShortcode, rfl⟩⟩
  | domain =>
      obtain ⟨domain, isDomain, rfl⟩ := map_eq_ok.mp h
      exact ⟨fun _ => rfl, fun _ => map_eq_ok.mpr ⟨domain, readDomain_again isDomain, rfl⟩⟩
  | count =>
      obtain ⟨count, isCount, rfl⟩ := map_eq_ok.mp h
      exact ⟨fun _ => rfl, fun _ => map_eq_ok.mpr ⟨count, readCount_again isCount, rfl⟩⟩
  | provider =>
      obtain ⟨provider, isProvider, rfl⟩ := map_eq_ok.mp h
      exact ⟨fun _ => rfl, fun _ => map_eq_ok.mpr ⟨provider, readProvider_again isProvider, rfl⟩⟩
  | secret =>
      obtain ⟨ref, isRef, rfl⟩ := map_eq_ok.mp h
      exact ⟨fun _ => rfl, fun _ => map_eq_ok.mpr ⟨ref, readSecretRef_again isRef, rfl⟩⟩

/-- `hasTwoSlashes` for the kind of a field. -/
def fieldHasTwoSlashes (path : String) (value : Json ν) : Bool :=
  (FIELD_KINDS.get path).any fun kind => hasTwoSlashes kind value

theorem normalizeField_eq_ok {path label : String} {value : Json ν} {normal : FieldValue ν} :
    normalizeField hosts letters path value label = .ok normal ↔
      ∃ kind, FIELD_KINDS.get path = some kind ∧ normalizer hosts letters kind value = .ok normal := by
  unfold normalizeField
  cases FIELD_KINDS.get path with
  | none => simp
  | some kind => cases h : normalizer hosts letters kind value <;> simp [Except.mapError, h]

theorem normalizeField_again_iff {path label : String} {value : Json ν} {normal : FieldValue ν}
    (h : normalizeField hosts letters path value label = .ok normal) (label' : String) :
    normalizeField hosts letters path normal.toJson label' = .ok normal ↔
      fieldHasTwoSlashes path value = false := by
  obtain ⟨kind, isKind, normalized⟩ := normalizeField_eq_ok.mp h
  rw [fieldHasTwoSlashes, isKind, Option.any_some, ← normalizer_again_iff normalized,
    normalizeField_eq_ok]
  simp [isKind]

end Kinds

end GhcpConsole.Enterprise
