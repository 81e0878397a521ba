import GhcpConsole.ClaudeCode.Plain
import GhcpConsole.ClaudeCode.Settling

/-!
# Thinking and effort

What a prepared body asks for is what its model accepts (`thinking_accepted`).
-/

namespace GhcpConsole.ClaudeCode

section Stripped

variable {ν : Type} {body : Body ν}

/-- The body that the policies see. -/
def stripped (body : Body ν) : Body ν := stripVolatileCurrentDate (stripCacheControlScope body)

theorem get_stripped {key : String} (hscope : key ≠ "cache_control") (htext : key ≠ "text") :
    (stripped body).get key = ((body.get key).map (stripScope false)).map (stripDate false) := by
  rw [stripped, stripVolatileCurrentDate, get_stripDateMembers, stripCacheControlScope,
    get_stripScopeMembers, decide_eq_false hscope, decide_eq_false htext]

theorem get_stripped_field {key : String} (hkey : key ∈ profileFields) :
    (stripped body).get key = ((body.get key).map (stripScope false)).map (stripDate false) :=
  get_stripped (ne_of_mem_profileFields hkey (by decide)) (ne_of_mem_profileFields hkey (by decide))

theorem scopeFree_stripped : ScopeFree (stripped body) := by
  intro key hkey
  rw [get_stripped_field hkey]
  cases body.get key with
  | none => rfl
  | some value =>
      simp only [Option.map_some]
      rw [stripScope_stripDate, stripScope_idem]

theorem stripScopeItems_eq (items : List (Json ν)) : stripScopeItems items = items.map (stripScope false) := by
  induction items with
  | nil => rfl
  | cons item items ih => rw [stripScopeItems, ih, List.map_cons]

theorem stripDateItems_eq (items : List (Json ν)) : stripDateItems items = items.map (stripDate false) := by
  induction items with
  | nil => rfl
  | cons item items ih => rw [stripDateItems, ih, List.map_cons]

theorem arrayField_stripScope (value : Option (Json ν)) : arrayField (value.map (stripScope false))
    = (arrayField value).map (·.map (stripScope false)) := by
  cases value with
  | none => rfl
  | some value =>
      cases value with
      | arr items => exact congrArg some (stripScopeItems_eq items)
      | null | bool | num | str | obj => rfl

theorem arrayField_stripDate (value : Option (Json ν)) : arrayField (value.map (stripDate false))
    = (arrayField value).map (·.map (stripDate false)) := by
  cases value with
  | none => rfl
  | some value =>
      cases value with
      | arr items => exact congrArg some (stripDateItems_eq items)
      | null | bool | num | str | obj => rfl

theorem messages_stripped : arrayField ((stripped body).get "messages")
    = (arrayField (body.get "messages")).map fun messages =>
        (messages.map (stripScope false)).map (stripDate false) := by
  rw [get_stripped (by decide) (by decide), arrayField_stripDate, arrayField_stripScope, Option.map_map]
  rfl

theorem noConfig_stripScope {message : Json ν} (h : NoConfig message) :
    NoConfig (stripScope false message) := by
  rw [NoConfig, ← Option.map_some, recordField_stripScope]
  rw [NoConfig] at h
  cases hrecord : recordField (some message) with
  | none => rfl
  | some object =>
      rw [hrecord, Option.bind_some] at h
      rw [Option.map_some, Option.bind_some, get_stripScopeMembers, h, Option.map_none]

theorem noConfig_stripDate {message : Json ν} (h : NoConfig message) :
    NoConfig (stripDate false message) := by
  rw [NoConfig, ← Option.map_some, recordField_stripDate]
  rw [NoConfig] at h
  cases hrecord : recordField (some message) with
  | none => rfl
  | some object =>
      rw [hrecord, Option.bind_some] at h
      rw [Option.map_some, Option.bind_some, get_stripDateMembers, h, Option.map_none]

theorem hasMessageOutputConfig_stripped (h : hasMessageOutputConfig body = false) :
    hasMessageOutputConfig (stripped body) = false := by
  rw [hasMessageOutputConfig_eq_false] at h ⊢
  intro messages hmessages
  rw [messages_stripped] at hmessages
  obtain ⟨before, hbefore, rfl⟩ := Option.map_eq_some_iff.mp hmessages
  intro m hm
  obtain ⟨unscoped, hunscoped, rfl⟩ := List.mem_map.mp hm
  obtain ⟨message, hmessage, rfl⟩ := List.mem_map.mp hunscoped
  exact noConfig_stripDate (noConfig_stripScope (h before hbefore message hmessage))

end Stripped

/-! ## The policies in the whole -/

section Result

variable {ν : Type} [JsInteger ν] {body other : Body ν} {profile : AnthropicModelProfile}

theorem get_applyModelProfile {key : String} (hkey : key ∉ profileFields) :
    (applyModelProfile body profile).get key = body.get key := by
  simp only [profileFields, List.mem_cons, not_or] at hkey
  rw [applyModelProfile, get_disableForcedToolChoiceWhenThinking hkey.2.2.2.1,
    capThinkingBudget_capped.get hkey.2.1 hkey.1, get_applyEffortPolicy hkey.1,
    get_applyThinkingPolicy hkey.2.1, get_applyEffortPolicy hkey.1]

theorem preprocess_eq (h : hasMessageOutputConfig body = false) :
    preprocessClaudeCodeMessagesBody body
      = prepareMessages (applyModelProfile (stripped body) (modelProfile body)) (modelProfile body) := by
  rw [preprocessClaudeCodeMessagesBody, if_neg (by rw [h]; exact Bool.false_ne_true), stripped]

theorem get_preprocess (h : hasMessageOutputConfig body = false) {key : String}
    (hkey : key ∈ profileFields) : (preprocessClaudeCodeMessagesBody body).get key
      = (applyModelProfile (stripped body) (modelProfile body)).get key := by
  rw [preprocess_eq h, get_prepareMessages (ne_of_mem_profileFields hkey (by decide))
    (ne_of_mem_profileFields hkey (by decide))]

theorem Settled.congr (h : Settled profile body)
    (hsame : ∀ key ∈ profileFields, other.get key = body.get key) : Settled profile other where
  effort := by
    rw [hsame outputConfigKey (by decide)]
    exact h.effort
  thinking := by
    rw [hsame "thinking" (by decide)]
    exact h.thinking
  budget := by
    rw [hsame "thinking" (by decide), hsame "max_tokens" (by decide)]
    exact h.budget
  choice := by
    rw [hsame "thinking" (by decide), hsame "tool_choice" (by decide)]
    exact h.choice

/-- Dates in the fields do not matter to the policies. -/
theorem Settled.dates (h : Settled profile body)
    (hsame : ∀ key ∈ profileFields, other.get key = (body.get key).map (stripDate false)) :
    Settled profile other := by
  have hthinking : thinkingType (other.get "thinking") = thinkingType (body.get "thinking") := by
    rw [hsame "thinking" (by decide)]
    exact stringMember_stripDate _ (by decide)
  have hbudget : thinkingBudget (other.get "thinking") = thinkingBudget (body.get "thinking") := by
    rw [hsame "thinking" (by decide), thinkingBudget, thinkingBudget, recordField_stripDate]
    cases recordField (body.get "thinking") with
    | none => rfl
    | some members =>
        rw [Option.map_some, Option.bind_some, Option.bind_some, get_stripDateMembers,
          positiveInteger_stripDate]
  exact {
    effort := by
      rw [hsame outputConfigKey (by decide), EffortOk, stringMember_stripDate _ (by decide)]
      exact h.effort
    thinking := by
      rw [ThinkingOk, hthinking]
      exact h.thinking
    budget := by
      rw [BudgetOk, hthinking, hbudget, hsame "max_tokens" (by decide), positiveInteger_stripDate]
      exact h.budget
    choice := by
      rw [ChoiceOk, hthinking, hsame "tool_choice" (by decide), choiceType,
        stringMember_stripDate _ (by decide), hsame "thinking" (by decide), recordField_stripDate,
        Option.isSome_map]
      exact h.choice }

theorem settled_preprocess (h : hasMessageOutputConfig body = false) :
    Settled (modelProfile body) (preprocessClaudeCodeMessagesBody body) :=
  (settled_applyModelProfile (maxThinkingBudget_profile _)).congr fun _ hkey => get_preprocess h hkey

theorem modelProfile_preprocess (h : hasMessageOutputConfig body = false) :
    modelProfile (preprocessClaudeCodeMessagesBody body) = modelProfile body := by
  rw [preprocess_eq h, modelProfile, get_prepareMessages (by decide) (by decide),
    get_applyModelProfile (by decide), get_stripped (by decide) (by decide), stringField_stripDate,
    stringField_stripScope]
  rfl

theorem hasMessageOutputConfig_preprocess (h : hasMessageOutputConfig body = false) :
    hasMessageOutputConfig (preprocessClaudeCodeMessagesBody body) = false := by
  rw [preprocess_eq h]
  refine hasMessageOutputConfig_prepareMessages ?_
  rw [hasMessageOutputConfig, get_applyModelProfile (by decide)]
  exact hasMessageOutputConfig_stripped h

/-- When the result is preprocessed again, the fields change only by the dates that are stripped from
their texts. -/
theorem get_preprocess_preprocess (h : hasMessageOutputConfig body = false) {key : String}
    (hkey : key ∈ profileFields) :
    (preprocessClaudeCodeMessagesBody (preprocessClaudeCodeMessagesBody body)).get key
      = ((preprocessClaudeCodeMessagesBody body).get key).map (stripDate false) := by
  have hfree : ScopeFree (applyModelProfile (stripped body) (modelProfile body)) :=
    scopeFree_stripped.applyModelProfile _
  have hstripped : ∀ key ∈ profileFields, (stripped (preprocessClaudeCodeMessagesBody body)).get key
      = ((preprocessClaudeCodeMessagesBody body).get key).map (stripDate false) := by
    intro key hkey
    rw [get_stripped_field hkey, get_preprocess h hkey, hfree key hkey]
  rw [get_preprocess (hasMessageOutputConfig_preprocess h) hkey, modelProfile_preprocess h,
    applyModelProfile_of_settled ((settled_preprocess h).dates hstripped), hstripped key hkey]

end Result

/-! ## Empty configurations -/

section Empty

variable {ν : Type} {body : Body ν} {profile : AnthropicModelProfile}

/-- An empty `output_config` is one that was there before. -/
def NoNewEmpty (before after : Option (Json ν)) : Prop :=
  recordField after = some [] → recordField before = some []

theorem noNewEmpty_deleteEffort (outputConfig : OrderedMap String (Json ν)) (before : Option (Json ν)) :
    NoNewEmpty before ((deleteEffort body outputConfig).get outputConfigKey) := by
  rw [deleteEffort]
  split
  · rw [OrderedMap.get_erase_self]
    rintro ⟨⟩
  · rename_i hne
    rw [OrderedMap.get_set_self]
    intro hempty
    rw [Option.some.inj hempty] at hne
    exact absurd rfl hne

theorem noNewEmpty_applyEffortPolicy :
    NoNewEmpty (body.get outputConfigKey) ((applyEffortPolicy body profile).get outputConfigKey) := by
  unfold applyEffortPolicy
  split
  · exact id
  · split
    · exact id
    · split
      · exact id
      · split
        · exact id
        · exact noNewEmpty_deleteEffort _ _

variable [JsInteger ν]

theorem Capped.noNewEmpty {result : Body ν} (h : Capped profile body result) :
    NoNewEmpty (body.get outputConfigKey) (result.get outputConfigKey) := by
  cases h with
  | same => exact id
  | deleted =>
      unfold stripOutputConfigEffort
      split
      · rw [OrderedMap.get_erase_ne (by decide)]
        exact id
      · split
        · exact noNewEmpty_deleteEffort _ _
        · rw [OrderedMap.get_erase_ne (by decide)]
          exact id
  | lowered =>
      rw [OrderedMap.get_set_ne (by decide)]
      exact id

theorem noNewEmpty_preprocess (h : hasMessageOutputConfig body = false) :
    NoNewEmpty (body.get outputConfigKey)
      ((preprocessClaudeCodeMessagesBody body).get outputConfigKey) := by
  rw [get_preprocess h (by decide), applyModelProfile,
    get_disableForcedToolChoiceWhenThinking (by decide)]
  intro hempty
  have hsecond := noNewEmpty_applyEffortPolicy (capThinkingBudget_capped.noNewEmpty hempty)
  rw [get_applyThinkingPolicy (by decide)] at hsecond
  have hfirst := noNewEmpty_applyEffortPolicy hsecond
  rw [get_stripped_field (by decide), recordField_stripDate, recordField_stripScope] at hfirst
  cases hrecord : recordField (body.get outputConfigKey) with
  | none =>
      rw [hrecord] at hfirst
      cases hfirst
  | some members =>
      rw [hrecord] at hfirst
      cases members with
      | nil => rfl
      | cons entry members => cases hfirst

end Empty

/-! ## What is asked for -/

section Asked

variable {ν : Type} [JsInteger ν]

/-- The thinking and the effort of a prepared body are such as the model accepts them, and preparing it
again, as it is plain too, strips dates from the texts of these fields and does nothing else to them. -/
theorem thinking_accepted (body : Body ν) (hplain : isPlainMembers body = true)
    (h : hasMessageOutputConfig body = false) :
    let profile := modelProfile body
    let result := preprocessClaudeCodeMessagesBody body
    (thinkingType (result.get "thinking") = some "enabled" → ∀ budget,
        thinkingBudget (result.get "thinking") = some budget → budget ≤ profile.maxThinkingBudget
          ∧ ∀ n, positiveInteger (result.get "max_tokens") = some n → budget < n)
      ∧ ¬(profile.thinking = .enabledOnly ∧ thinkingType (result.get "thinking") = some "adaptive")
      ∧ ¬(profile.thinking = .adaptiveOnly ∧ thinkingType (result.get "thinking") = some "enabled")
      ∧ ((recordField (result.get "thinking")).isSome = true →
          thinkingType (result.get "thinking") ≠ some "disabled" →
          choiceType (result.get "tool_choice") ≠ some "any"
            ∧ choiceType (result.get "tool_choice") ≠ some "tool")
      ∧ (∀ effort, stringField ((recordField (result.get outputConfigKey)).bind (·.get "effort"))
            = some effort → effort ≠ "" → acceptsEffort profile effort = true)
      ∧ (recordField (result.get outputConfigKey) = some [] →
          recordField (body.get outputConfigKey) = some [])
      ∧ isPlainMembers result = true
      ∧ ∀ key ∈ profileFields, (preprocessClaudeCodeMessagesBody result).get key
          = (result.get key).map (stripDate false) := by
  intro profile result
  have hsettled : Settled profile result := settled_preprocess h
  have hmax : profile.maxThinkingBudget = defaultMaxThinkingBudget := maxThinkingBudget_profile _
  refine ⟨fun htype budget hbudget => ?_, hsettled.thinking.1, hsettled.thinking.2, hsettled.choice,
    hsettled.effort, noNewEmpty_preprocess h, isPlain_preprocess hplain,
    fun key hkey => get_preprocess_preprocess h hkey⟩
  obtain ⟨hmore, hle⟩ := hsettled.budget htype budget hbudget
  refine ⟨?_, fun n hn => ?_⟩
  · have hbounds := thinkingCap_bounds ν hmax (positiveInteger (result.get "max_tokens"))
    omega
  · rw [hn] at hle
    exact Nat.lt_of_le_of_lt hle (thinkingCap_lt hmax (hmore n hn))

end Asked

/-- An adaptive thinking for a model that has none, with a forced tool and an effort. -/
def forcedBody : Body Int :=
  [("model", .str "claude-haiku-4.5"), ("max_tokens", .num 2000),
    ("thinking", .obj [("type", .str "adaptive")]),
    ("tool_choice", .obj [("type", .str "any")]),
    ("output_config", .obj [("effort", .str "high")])]

theorem thinking_accepted_forced :
    thinkingBudget ((preprocessClaudeCodeMessagesBody forcedBody).get "thinking") = some 1999
      ∧ choiceType ((preprocessClaudeCodeMessagesBody forcedBody).get "tool_choice") ≠ some "any"
      ∧ 1999 < 2000 := by
  have hbudget : thinkingBudget ((preprocessClaudeCodeMessagesBody forcedBody).get "thinking")
      = some 1999 := by decide +kernel
  have haccepted := thinking_accepted forcedBody (by decide +kernel) (by decide +kernel)
  exact ⟨hbudget, (haccepted.2.2.2.1 (by decide +kernel) (by decide +kernel)).1,
    (haccepted.1 (by decide +kernel) 1999 hbudget).2 2000 (by decide +kernel)⟩

/-- A thinking that is no object, an empty effort and a text that becomes a block of the current date
when one is taken out of it. -/
def looseBody : Body Int :=
  [("thinking", .bool true), ("output_config", .obj [("effort", .str "")]),
    ("tool_choice", .obj [("type", .str "any"), ("text", .str
      ("# current# currentDate\nToday's date is 2024-01-01\nDate\nToday's date is 2024-01-02\n"))])]

/-- A tool stays forced where the thinking is no object, an effort that is no text of its own stays, and
preparing a body twice may strip a date that preparing it once has brought about. -/
theorem thinking_accepted_as_stated :
    (¬ ∀ body : Body Int, hasMessageOutputConfig body = false →
      ((preprocessClaudeCodeMessagesBody body).get "thinking").isSome = true →
      thinkingType ((preprocessClaudeCodeMessagesBody body).get "thinking") ≠ some "disabled" →
      choiceType ((preprocessClaudeCodeMessagesBody body).get "tool_choice") ≠ some "any")
    ∧ (¬ ∀ (body : Body Int) (effort : String), hasMessageOutputConfig body = false →
      stringField ((recordField ((preprocessClaudeCodeMessagesBody body).get outputConfigKey)).bind
        (·.get "effort")) = some effort → acceptsEffort (modelProfile body) effort = true)
    ∧ ¬ ∀ (body : Body Int), hasMessageOutputConfig body = false → ∀ key ∈ profileFields,
      (preprocessClaudeCodeMessagesBody (preprocessClaudeCodeMessagesBody body)).get key
        = (preprocessClaudeCodeMessagesBody body).get key := by
  have hplain : hasMessageOutputConfig looseBody = false := by decide +kernel
  refine ⟨fun h => ?_, fun h => ?_, fun h => ?_⟩
  · exact h looseBody hplain (by decide +kernel) (by decide +kernel) (by decide +kernel)
  · have haccepts := h looseBody "" hplain (by decide +kernel)
    exact absurd haccepts (by decide +kernel)
  · have hsame := congrArg (fun value => (value.bind (textOf "text")).map String.length)
      (h looseBody hplain "tool_choice" (by decide))
    exact absurd hsame (by decide +kernel)

end GhcpConsole.ClaudeCode
