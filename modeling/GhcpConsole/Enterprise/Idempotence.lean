import GhcpConsole.Enterprise.Normalization

/-!
# The allowlist and the default entry

An allowlist entry and its normal form let the same pages in, and a `default` entry that is written
out agrees with the environment it came from, where normal forms are read as themselves.
-/

namespace GhcpConsole.Enterprise

section Allowlist

variable {hosts : HostParser} {raw entry : List Char} {t : TrustedUrl}

theorem parseTrustedUrl_no_space (accepted : parseTrustedUrl hosts raw = .ok t) :
    raw ≠ [] ∧ ∀ c ∈ raw, isTrimmed c = false := by
  unfold parseTrustedUrl at accepted
  split at accepted
  · cases accepted
  · rename_i parts
    split_ifs at accepted with space
    refine ⟨?_, fun c mem => ?_⟩
    · rintro rfl
      cases parts
    · by_contra trimmed
      refine space (List.any_eq_true.mpr ⟨c, mem, ?_⟩)
      simp [isWhitespaceOrControl, (Bool.not_eq_false _).mp trimmed]

theorem beforeQuery_append (front back : List Char) :
    beforeQuery (front ++ back) =
      if beforeQuery front = front then front ++ beforeQuery back else beforeQuery front := by
  unfold beforeQuery
  rw [List.takeWhile_append]
  have whole : (front.takeWhile fun c => c ≠ '?' && c ≠ '#').length = front.length ↔
      front.takeWhile (fun c => c ≠ '?' && c ≠ '#') = front :=
    ⟨fun length => (List.takeWhile_prefix _).eq_of_length length, fun same => by rw [same]⟩
  simp only [whole]

theorem beforeQuery_of_trimmed {space : List Char} (all : ∀ c ∈ space, isTrimmed c = true) :
    beforeQuery space = space := by
  refine List.takeWhile_eq_self_iff.mpr fun c mem => ?_
  have trimmed := all c mem
  have notQuery : c ≠ '?' := by
    rintro rfl
    exact absurd trimmed (by decide)
  have notFragment : c ≠ '#' := by
    rintro rfl
    exact absurd trimmed (by decide)
  simp [notQuery, notFragment]

/-- White space stands at neither end of an entry that the allowlist reads, or only in its query or
fragment. -/
theorem beforeQuery_trim_of_readable (readable : parseLoginUrl hosts entry = .ok t) :
    beforeQuery (trim entry) = beforeQuery entry := by
  obtain ⟨nonempty, noSpace⟩ := parseTrustedUrl_no_space readable
  have start : trimStart entry = entry := by
    refine trimStart_eq_self fun c first => noSpace c ?_
    cases entry with
    | nil => cases first
    | cons d rest =>
        cases first
        unfold beforeQuery at nonempty ⊢
        rw [List.takeWhile_cons] at nonempty ⊢
        split
        · exact List.mem_cons_self
        · rename_i stops
          rw [if_neg stops] at nonempty
          exact absurd rfl nonempty
  obtain ⟨space, isSpace, split⟩ := exists_trimEnd entry
  have parts := (congrArg beforeQuery split).trans (beforeQuery_append _ _)
  rw [trim, start, parts]
  rw [parts] at noSpace
  by_cases whole : beforeQuery (trimEnd entry) = trimEnd entry
  · rw [if_pos whole, beforeQuery_of_trimmed isSpace] at noSpace ⊢
    cases space with
    | nil => rw [whole, List.append_nil]
    | cons c rest =>
        have trimmed := isSpace c List.mem_cons_self
        rw [noSpace c (List.mem_append_right _ List.mem_cons_self)] at trimmed
        cases trimmed
  · rw [if_neg whole]

/-- The pages that an entry lets in, where it is read as a URL. -/
theorem isAllowedLoginUrl_singleton (u : List Char) (readable : parseLoginUrl hosts entry = .ok t) :
    isAllowedLoginUrl hosts u [entry] =
      (tryParseLoginUrl hosts u).any fun current => isSegmentPrefix t current := by
  unfold isAllowedLoginUrl
  cases tryParseLoginUrl hosts u with
  | none => rfl
  | some current =>
      dsimp only
      rw [List.any_cons, List.any_nil, Bool.or_false, tryParseLoginUrl, readable]
      rfl

theorem isAllowedLoginUrl_unreadable (u : List Char) {message : String}
    (unreadable : parseLoginUrl hosts entry = .error message) :
    isAllowedLoginUrl hosts u [entry] = false := by
  unfold isAllowedLoginUrl
  cases tryParseLoginUrl hosts u with
  | none => rfl
  | some current =>
      dsimp only
      rw [List.any_cons, List.any_nil, Bool.or_false, tryParseLoginUrl, unreadable]
      rfl

theorem isSegmentPrefix_self (t : TrustedUrl) : isSegmentPrefix t t = true := by
  simp [isSegmentPrefix]

theorem isSegmentPrefix_length {allowed current : TrustedUrl}
    (h : isSegmentPrefix allowed current = true) : allowed.segments.length ≤ current.segments.length := by
  rw [isSegmentPrefix, Bool.and_eq_true, List.isPrefixOf_iff_prefix] at h
  exact h.2.length_le

/-- An entry and its normal form let the same pages in exactly when the entry is read as it stands
and its URL does not end in two slashes. -/
theorem isAllowedLoginUrl_normal_iff (accepted : parseLoginUrl hosts (trim entry) = .ok t) :
    (∀ u, isAllowedLoginUrl hosts u [t.href] = isAllowedLoginUrl hosts u [entry]) ↔
      beforeQuery entry = beforeQuery (trim entry) ∧
        endsInTwoSlashes (beforeQuery (trim entry)) = false := by
  have normal := parseLoginUrl_href accepted
  constructor
  · intro same
    obtain ⟨t', again⟩ : ∃ t', parseLoginUrl hosts t.href = .ok t' := by
      by_cases double : endsInTwoSlashes (beforeQuery (trim entry)) = true
      · obtain ⟨t', again, _⟩ := parseTrustedUrl_shorter accepted double
        exact ⟨t', normal.trans again⟩
      · exact ⟨t, normal.trans (parseTrustedUrl_again accepted ((Bool.not_eq_true _).mp double))⟩
    have opens : isAllowedLoginUrl hosts t.href [entry] = true := by
      rw [← same, isAllowedLoginUrl_singleton _ again, tryParseLoginUrl, again]
      exact isSegmentPrefix_self t'
    cases readable : parseLoginUrl hosts entry with
    | error message =>
        rw [isAllowedLoginUrl_unreadable _ readable] at opens
        cases opens
    | ok read =>
        have kept := beforeQuery_trim_of_readable readable
        have isSame : read = t := by
          rw [parseLoginUrl, kept] at accepted
          exact Except.ok.inj (readable.symm.trans accepted)
        subst isSame
        refine ⟨kept.symm, ?_⟩
        by_contra double
        obtain ⟨shorter, again', _, length, _⟩ :=
          parseTrustedUrl_shorter accepted ((Bool.not_eq_false _).mp double)
        rw [isAllowedLoginUrl_singleton _ readable, tryParseLoginUrl, normal, again'] at opens
        have bound : read.segments.length ≤ shorter.segments.length := isSegmentPrefix_length opens
        omega
  · rintro ⟨kept, single⟩ u
    have readable : parseLoginUrl hosts entry = .ok t := by
      rw [parseLoginUrl, kept]
      exact accepted
    have again := normal.trans (parseTrustedUrl_again accepted single)
    rw [isAllowedLoginUrl_singleton u readable, isAllowedLoginUrl_singleton u again]

end Allowlist

section Default

variable {ν : Type} {settings : List (EnvSetting ν)} {owned : List String}

theorem field_not_mem_owned : ∀ {settings : List (EnvSetting ν)} {owned : List String},
    ∀ setting ∈ ownSettings owned settings, setting.field ∉ owned
  | [], _, _, mem => by cases mem
  | first :: settings, owned, setting, mem => by
      rw [ownSettings] at mem
      split at mem
      · exact field_not_mem_owned setting mem
      · rename_i free
        rcases List.mem_cons.mp mem with rfl | mem
        · exact free
        · exact fun isOwned => field_not_mem_owned setting mem (List.mem_cons_of_mem _ isOwned)

theorem nodup_ownSettings : ∀ (settings : List (EnvSetting ν)) (owned : List String),
    ((ownSettings owned settings).map (·.field)).Nodup
  | [], _ => List.nodup_nil
  | first :: settings, owned => by
      rw [ownSettings]
      split
      · exact nodup_ownSettings settings owned
      · rw [List.map_cons, List.nodup_cons]
        refine ⟨fun mem => ?_, nodup_ownSettings settings _⟩
        obtain ⟨later, isLater, same⟩ := List.mem_map.mp mem
        exact field_not_mem_owned later isLater (same ▸ List.mem_cons_self)

theorem bind_field_eq_ok {x : Except RegistryError (FieldValue ν)} {field : String}
    {entry : String × FieldValue ν} :
    (x >>= fun value => pure (field, value)) = .ok entry ↔ entry.1 = field ∧ x = .ok entry.2 := by
  obtain ⟨key, value⟩ := entry
  cases x with
  | error e => simp [bind, Except.bind]
  | ok a => simp [bind, Except.bind, pure, Except.pure, eq_comm]

theorem map_fst_eq {α : Type} {R : α → String × FieldValue ν → Prop} {key : α → String}
    (keeps : ∀ a entry, R a entry → entry.1 = key a) {l : List α} {fields : ProfileFields ν}
    (h : List.Forall₂ R l fields) : fields.map (·.1) = l.map key := by
  induction h with
  | nil => rfl
  | cons first _ ih => rw [List.map_cons, List.map_cons, ih, keeps _ _ first]

variable [DecidableEq ν] {sources : String → String}

/-- Merging fields that are there already changes nothing. -/
theorem mergeEnvFields_of_mem {registryFields : ProfileFields ν}
    (distinct : (registryFields.map (·.1)).Nodup) : ∀ {fields : ProfileFields ν},
    (∀ entry ∈ fields, entry ∈ registryFields) →
      mergeEnvFields sources registryFields fields = .ok registryFields
  | [], _ => rfl
  | (field, value) :: fields, inRegistry => by
      have mem := inRegistry _ List.mem_cons_self
      have later := mergeEnvFields_of_mem distinct fun entry isLater =>
        inRegistry entry (List.mem_cons_of_mem _ isLater)
      rw [mergeEnvFields, List.foldlM_cons]
      simp only [OrderedMap.get_of_mem distinct mem, if_true, OrderedMap.set_eq_self distinct mem]
      exact later

/-- Where a merge goes through, the two sides agree on every field that both set. -/
theorem mergeEnvFields_agree : ∀ {fields registryFields merged : ProfileFields ν},
    (fields.map (·.1)).Nodup → mergeEnvFields sources registryFields fields = .ok merged →
      ∀ field value registryValue, (field, value) ∈ fields →
        registryFields.get field = some registryValue → registryValue = value
  | [], _, _, _, _, _, _, _, mem, _ => by cases mem
  | (first, firstValue) :: fields, registryFields, merged, distinct, isMerged, field, value,
      registryValue, mem, isSet => by
      have parts : first ∉ fields.map (·.1) ∧ (fields.map (·.1)).Nodup := List.nodup_cons.mp distinct
      rw [mergeEnvFields, List.foldlM_cons] at isMerged
      obtain ⟨next, isNext, rest⟩ := except_bind_eq_ok.mp isMerged
      rcases List.mem_cons.mp mem with same | later
      · cases same
        simp only [isSet] at isNext
        split at isNext
        · assumption
        · cases isNext
      · have other : field ≠ first := by
          rintro rfl
          exact parts.1 (List.mem_map.mpr ⟨_, later, rfl⟩)
        have isNextSet : next = registryFields.set first firstValue := by
          dsimp only at isNext
          split at isNext
          · split at isNext
            · exact (Except.ok.inj isNext).symm
            · cases isNext
          · exact (Except.ok.inj isNext).symm
        refine mergeEnvFields_agree parts.2 rest field value registryValue later ?_
        rw [isNextSet, OrderedMap.get_set_ne other, isSet]

variable [JsInteger ν] {hosts : HostParser} {letters : LowerCase}

/-- A field of the environment, with the setting that it comes from. -/
def SetsField (hosts : HostParser) (letters : LowerCase) (setting : EnvSetting ν)
    (entry : String × FieldValue ν) : Prop :=
  entry.1 = setting.field ∧
    normalizeField hosts letters setting.field setting.value setting.variableName = .ok entry.2

omit [DecidableEq ν] in
theorem envFields_eq_ok {fields : ProfileFields ν} : envFields hosts letters settings = .ok fields ↔
    List.Forall₂ (SetsField hosts letters) (ownSettings [] settings) fields := by
  simp only [envFields, except_mapM_eq_ok, bind_field_eq_ok]
  rfl

/-- An entry of a profile, with what is read where it is written out. -/
def Rereads (hosts : HostParser) (letters : LowerCase) (entry written : String × FieldValue ν) : Prop :=
  written.1 = entry.1 ∧
    normalizeField hosts letters entry.1 entry.2.toJson ("default." ++ entry.1) = .ok written.2

omit [DecidableEq ν] in
theorem readDefault_eq_ok {fields written : ProfileFields ν} :
    readDefault hosts letters fields = .ok written ↔ List.Forall₂ (Rereads hosts letters) fields written := by
  simp only [readDefault, except_mapM_eq_ok, bind_field_eq_ok]
  rfl

/-- The default entry that is written out is read and agrees with the environment exactly when no URL
that was set ends in two slashes. -/
theorem readDefault_merge_iff {fields : ProfileFields ν}
    (isSet : envFields hosts letters settings = .ok fields) :
    (readDefault hosts letters fields >>= fun written => mergeEnvFields sources written fields)
        = .ok fields ↔
      ∀ setting ∈ ownSettings [] settings, fieldHasTwoSlashes setting.field setting.value = false := by
  have sets := envFields_eq_ok.mp isSet
  have distinct : (fields.map (·.1)).Nodup := by
    rw [map_fst_eq (fun _ _ entry => entry.1) sets]
    exact nodup_ownSettings settings []
  have rereads_self : List.Forall₂ (Rereads hosts letters) fields fields ↔
      ∀ setting ∈ ownSettings [] settings, fieldHasTwoSlashes setting.field setting.value = false := by
    clear distinct isSet
    generalize ownSettings [] settings = own at sets
    induction sets with
    | nil => simp
    | @cons setting entry settings fields first _ ih =>
        obtain ⟨key, normal⟩ := first
        rw [List.forall₂_cons, List.forall_mem_cons, ih, Rereads, key,
          normalizeField_again_iff normal]
        simp
  rw [← rereads_self]
  constructor
  · intro h
    obtain ⟨written, isWritten, isMerged⟩ := except_bind_eq_ok.mp h
    have reads := readDefault_eq_ok.mp isWritten
    have keys := map_fst_eq (fun _ _ entry => entry.1) reads
    have agree := mergeEnvFields_agree distinct isMerged
    have same : written = fields := by
      refine List.ext_getElem reads.length_eq.symm fun i inWritten inFields => ?_
      have read := (List.forall₂_iff_get.mp reads).2 i inFields inWritten
      have inWritten' := OrderedMap.get_of_mem (keys ▸ distinct) (List.getElem_mem inWritten)
      have value := agree _ _ _ (List.getElem_mem inFields) (read.1 ▸ inWritten')
      exact Prod.ext read.1 value
    rwa [same] at reads
  · intro self
    rw [readDefault_eq_ok.mpr self]
    exact mergeEnvFields_of_mem distinct fun entry mem => mem

end Default

/-- An accepted value is read as an equal one, a default entry that is written out agrees with the
environment, and an allowlist entry lets in what its normal form lets in, exactly when no URL ends in two
slashes and the allowlist entry is no other without the white space around it. -/
theorem normalization_stable_iff {ν : Type} [JsInteger ν] [DecidableEq ν] (hosts : HostParser)
    (letters : LowerCase) :
    (∀ (path : String) (v : Json ν) (label : String) (normal : FieldValue ν),
      normalizeField hosts letters path v label = .ok normal →
        ∀ label', normalizeField hosts letters path normal.toJson label' = .ok normal ↔
          fieldHasTwoSlashes path v = false) ∧
    (∀ (settings : List (EnvSetting ν)) (fields : ProfileFields ν) (sources : String → String),
      envFields hosts letters settings = .ok fields →
        ((readDefault hosts letters fields >>= fun written => mergeEnvFields sources written fields)
            = .ok fields ↔
          ∀ setting ∈ ownSettings [] settings,
            fieldHasTwoSlashes setting.field setting.value = false)) ∧
    ∀ (r : String) (index : Nat) (normal : List Char),
      readEntry hosts (.str r : Json ν) index = .ok normal →
        ((∀ u, isAllowedLoginUrl hosts u [normal] = isAllowedLoginUrl hosts u [r.toList]) ↔
          beforeQuery r.toList = beforeQuery (trim r.toList) ∧
            endsInTwoSlashes (beforeQuery (trim r.toList)) = false) := by
  refine ⟨?_, ?_, ?_⟩
  · intro path v label normal normalized label'
    exact normalizeField_again_iff normalized label'
  · intro settings fields sources isSet
    exact readDefault_merge_iff isSet
  · intro r index normal isNormal
    obtain ⟨t, isUrl, rfl⟩ := readEntry_eq_ok.mp isNormal
    obtain ⟨text, isString, accepted⟩ := except_bind_eq_ok.mp isUrl
    cases isString
    exact isAllowedLoginUrl_normal_iff accepted

theorem isHostChar_of_letter {c : Char} (letter : 'a' ≤ c ∧ c ≤ 'z') : isHostChar c = true := by
  have low : 97 ≤ c.toNat := UInt32.le_iff_toNat_le.mp letter.1
  have high : c.toNat ≤ 122 := UInt32.le_iff_toNat_le.mp letter.2
  have other : ∀ d : Char, d.toNat < 97 → c ≠ d := by
    rintro d small rfl
    omega
  simp only [isHostChar, Bool.and_eq_true, decide_eq_true_eq]
  refine ⟨⟨⟨⟨⟨⟨⟨?_, ?_⟩, other _ (by decide)⟩, other _ (by decide)⟩, other _ (by decide)⟩,
    other _ (by decide)⟩, other _ (by decide)⟩, other _ (by decide)⟩
  · omega
  · omega

/-- Hosts of small letters, of which the host parser changes nothing. -/
def letterHosts : HostParser where
  parse host := if host ≠ [] ∧ ∀ c ∈ host, 'a' ≤ c ∧ c ≤ 'z' then some host else none
  nonempty := by
    intro host serialized parsed
    split_ifs at parsed with letters
    cases parsed
    exact letters.1
  stable := by
    intro host serialized parsed
    split_ifs at parsed with letters
    cases parsed
    exact if_pos letters
  plain := by
    intro host serialized parsed c mem
    split_ifs at parsed with letters
    cases parsed
    exact isHostChar_of_letter (letters.2 c mem)
  colons := by
    intro host serialized parsed
    split_ifs at parsed with letters
    cases parsed
    refine Or.inl fun c mem => ?_
    have letter := letters.2 c mem
    refine ⟨?_, ?_, ?_⟩ <;>
    · rintro rfl
      exact absurd letter (by decide)

/-- Two slashes: one is dropped by each reading, and the normal form lets in what the entry does not. -/
theorem normalization_two_slashes :
    normalizeField letterHosts asciiLetters "sso.scimBaseUrl" (.str "https://h/a//" : Json Int) "default"
        = .ok (.text "https://h/a/".toList) ∧
      normalizeField letterHosts asciiLetters "sso.scimBaseUrl" (.str "https://h/a/" : Json Int) "default"
        = .ok (.text "https://h/a".toList) ∧
      readEntry letterHosts (.str "https://h/a//" : Json Int) 0 = .ok "https://h/a/".toList ∧
      isAllowedLoginUrl letterHosts "https://h/a/login".toList ["https://h/a/".toList] = true ∧
      isAllowedLoginUrl letterHosts "https://h/a/login".toList ["https://h/a//".toList] = false := by
  decide +kernel

end GhcpConsole.Enterprise
