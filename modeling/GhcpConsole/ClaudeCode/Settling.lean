import GhcpConsole.ClaudeCode.Policies

/-!
# The profile and the other passes

The passes over the whole body before the policies and the passes over the messages behind them leave
alone what the policies look at. So the policies find nothing to do when the result is preprocessed
again: of their four fields only the texts can change, by the dates that are stripped from them.
-/

namespace GhcpConsole.ClaudeCode

/-! ## Traversals -/

section Traversals

variable {ν : Type}

theorem get_stripScopeMembers (members : List (String × Json ν)) (key : String) :
    OrderedMap.get (stripScopeMembers false members) key
      = (OrderedMap.get members key).map (stripScope (key = "cache_control")) := by
  induction members with
  | nil => rfl
  | cons entry members ih =>
      obtain ⟨k, child⟩ := entry
      rw [stripScopeMembers, Bool.false_and, if_neg (by decide), OrderedMap.get_cons,
        OrderedMap.get_cons, ih]
      split
      · rename_i hk
        rw [hk, Option.map_some]
      · rfl

theorem get_stripDateMembers (members : List (String × Json ν)) (key : String) :
    OrderedMap.get (stripDateMembers members) key
      = (OrderedMap.get members key).map (stripDate (key = "text")) := by
  induction members with
  | nil => rfl
  | cons entry members ih =>
      obtain ⟨k, child⟩ := entry
      rw [stripDateMembers, OrderedMap.get_cons, OrderedMap.get_cons, ih]
      split
      · rename_i hk
        rw [hk, Option.map_some]
      · rfl

theorem recordField_stripScope (dropScope : Bool) (value : Option (Json ν)) :
    recordField (value.map (stripScope dropScope))
      = (recordField value).map (stripScopeMembers dropScope) := by
  cases value with
  | none => rfl
  | some value => cases value <;> rfl

theorem recordField_stripDate (isText : Bool) (value : Option (Json ν)) :
    recordField (value.map (stripDate isText)) = (recordField value).map stripDateMembers := by
  cases value with
  | none => rfl
  | some value =>
      cases value with
      | str text => cases isText <;> rfl
      | null | bool | num | arr | obj => rfl

theorem stringField_stripScope (dropScope : Bool) (value : Option (Json ν)) :
    stringField (value.map (stripScope dropScope)) = stringField value := by
  cases value with
  | none => rfl
  | some value => cases value <;> rfl

theorem stringField_stripDate (value : Option (Json ν)) :
    stringField (value.map (stripDate false)) = stringField value := by
  cases value with
  | none => rfl
  | some value => cases value <;> rfl

theorem positiveInteger_stripDate [JsInteger ν] (isText : Bool) (value : Option (Json ν)) :
    positiveInteger (value.map (stripDate isText)) = positiveInteger value := by
  cases value with
  | none => rfl
  | some value =>
      cases value with
      | str text => cases isText <;> rfl
      | null | bool | num | arr | obj => rfl

theorem stringMember_stripDate (value : Option (Json ν)) {name : String} (hname : name ≠ "text") :
    stringField ((recordField (value.map (stripDate false))).bind (·.get name))
      = stringField ((recordField value).bind (·.get name)) := by
  rw [recordField_stripDate]
  cases recordField value with
  | none => rfl
  | some members =>
      rw [Option.map_some, Option.bind_some, Option.bind_some, get_stripDateMembers,
        decide_eq_false hname, stringField_stripDate]

mutual

theorem stripScope_idem (dropScope : Bool) : (value : Json ν) →
    stripScope dropScope (stripScope dropScope value) = stripScope dropScope value
  | .null => rfl
  | .bool _ => rfl
  | .num _ => rfl
  | .str _ => rfl
  | .arr items => by rw [stripScope, stripScope, stripScopeItems_idem items]
  | .obj members => by rw [stripScope, stripScope, stripScopeMembers_idem dropScope members]

theorem stripScopeItems_idem : (items : List (Json ν)) →
    stripScopeItems (stripScopeItems items) = stripScopeItems items
  | [] => rfl
  | item :: items => by
      rw [stripScopeItems, stripScopeItems, stripScope_idem false item, stripScopeItems_idem items]

theorem stripScopeMembers_idem (dropScope : Bool) : (members : List (String × Json ν)) →
    stripScopeMembers dropScope (stripScopeMembers dropScope members)
      = stripScopeMembers dropScope members
  | [] => rfl
  | (key, child) :: members => by
      rw [stripScopeMembers]
      split
      · exact stripScopeMembers_idem dropScope members
      · rename_i hkeep
        rw [stripScopeMembers, if_neg hkeep, stripScope_idem _ child,
          stripScopeMembers_idem dropScope members]

end

mutual

/-- Dates and scopes are stripped independently. -/
theorem stripScope_stripDate (dropScope isText : Bool) : (value : Json ν) →
    stripScope dropScope (stripDate isText value) = stripDate isText (stripScope dropScope value)
  | .null => rfl
  | .bool _ => rfl
  | .num _ => rfl
  | .str _ => by cases isText <;> rfl
  | .arr items => by
      rw [stripDate, stripScope, stripScope, stripDate, stripScopeItems_stripDateItems items]
  | .obj members => by
      rw [stripDate, stripScope, stripScope, stripDate,
        stripScopeMembers_stripDateMembers dropScope members]

theorem stripScopeItems_stripDateItems : (items : List (Json ν)) →
    stripScopeItems (stripDateItems items) = stripDateItems (stripScopeItems items)
  | [] => rfl
  | item :: items => by
      rw [stripDateItems, stripScopeItems, stripScopeItems, stripDateItems,
        stripScope_stripDate false false item, stripScopeItems_stripDateItems items]

theorem stripScopeMembers_stripDateMembers (dropScope : Bool) : (members : List (String × Json ν)) →
    stripScopeMembers dropScope (stripDateMembers members)
      = stripDateMembers (stripScopeMembers dropScope members)
  | [] => rfl
  | (key, child) :: members => by
      rw [stripDateMembers, stripScopeMembers, stripScopeMembers]
      split
      · exact stripScopeMembers_stripDateMembers dropScope members
      · rw [stripDateMembers, stripScope_stripDate _ _ child,
          stripScopeMembers_stripDateMembers dropScope members]

end

end Traversals

/-! ## The fields of the policies -/

def profileFields : List String := [outputConfigKey, "thinking", "max_tokens", "tool_choice"]

section Fields

variable {ν : Type}

theorem ne_of_mem_profileFields {key other : String} (hkey : key ∈ profileFields)
    (hother : other ∉ profileFields) : key ≠ other := ne_of_mem_of_not_mem hkey hother

/-- No scope is left in the fields. -/
def ScopeFree (body : Body ν) : Prop :=
  ∀ key ∈ profileFields, (body.get key).map (stripScope false) = body.get key

theorem scopeFree_members {members : OrderedMap String (Json ν)} :
    stripScopeMembers false members = members
      ↔ ∀ entry ∈ members, stripScope (entry.1 = "cache_control") entry.2 = entry.2 := by
  induction members with
  | nil => exact ⟨fun _ entry hentry => (by cases hentry), fun _ => rfl⟩
  | cons entry members ih =>
      obtain ⟨key, child⟩ := entry
      rw [stripScopeMembers, Bool.false_and, if_neg (by decide), List.cons.injEq, Prod.mk.injEq, ih,
        List.forall_mem_cons]
      exact and_congr_left' (and_iff_right rfl)

theorem ScopeFree.set {body : Body ν} (h : ScopeFree body) {key : String} {value : Json ν}
    (hvalue : stripScope false value = value) : ScopeFree (body.set key value) := by
  intro other hother
  rw [OrderedMap.get_set]
  split
  · rw [Option.map_some, hvalue]
  · exact h other hother

theorem ScopeFree.erase {body : Body ν} (h : ScopeFree body) (key : String) :
    ScopeFree (OrderedMap.erase body key) := by
  intro other hother
  by_cases hkey : other = key
  · rw [hkey, OrderedMap.get_erase_self]
    rfl
  · rw [OrderedMap.get_erase_ne hkey]
    exact h other hother

/-- The entries of an object of one of the fields. -/
theorem ScopeFree.entries {body : Body ν} (h : ScopeFree body) {key : String} (hkey : key ∈ profileFields)
    {members : OrderedMap String (Json ν)} (hmembers : recordField (body.get key) = some members) :
    ∀ entry ∈ members, stripScope (entry.1 = "cache_control") entry.2 = entry.2 := by
  have hfree := congrArg recordField (h key hkey)
  rw [recordField_stripScope, hmembers, Option.map_some] at hfree
  exact scopeFree_members.mp (Option.some.inj hfree)

theorem stripScope_obj {members : OrderedMap String (Json ν)}
    (h : ∀ entry ∈ members, stripScope (entry.1 = "cache_control") entry.2 = entry.2) :
    stripScope false (.obj members) = .obj members := by
  rw [stripScope, scopeFree_members.mpr h]

theorem ScopeFree.deleteEffort {body : Body ν} (h : ScopeFree body)
    {outputConfig : OrderedMap String (Json ν)}
    (hentries : ∀ entry ∈ outputConfig, stripScope (entry.1 = "cache_control") entry.2 = entry.2) :
    ScopeFree (deleteEffort body outputConfig) := by
  rw [ClaudeCode.deleteEffort]
  split
  · exact h.erase _
  · exact h.set (stripScope_obj fun entry hentry => hentries entry (OrderedMap.mem_erase hentry))

theorem ScopeFree.applyEffortPolicy {body : Body ν} (h : ScopeFree body)
    (profile : AnthropicModelProfile) : ScopeFree (applyEffortPolicy body profile) := by
  unfold ClaudeCode.applyEffortPolicy
  split
  · exact h
  · rename_i outputConfig hrecord
    split
    · exact h
    · split
      · exact h
      · split
        · exact h
        · exact h.deleteEffort (h.entries (by decide) hrecord)

theorem ScopeFree.stripOutputConfigEffort {body : Body ν} (h : ScopeFree body) :
    ScopeFree (stripOutputConfigEffort body) := by
  unfold ClaudeCode.stripOutputConfigEffort
  split
  · exact h
  · rename_i outputConfig hrecord
    split
    · exact h.deleteEffort (h.entries (by decide) hrecord)
    · exact h

theorem ScopeFree.disableForcedToolChoiceWhenThinking {body : Body ν} (h : ScopeFree body) :
    ScopeFree (disableForcedToolChoiceWhenThinking body) := by
  unfold ClaudeCode.disableForcedToolChoiceWhenThinking
  split
  · exact h
  · split
    · exact h
    · split
      · exact h.set rfl
      · exact h.set rfl
      · exact h

variable [JsInteger ν]

theorem ScopeFree.applyThinkingPolicy {body : Body ν} (h : ScopeFree body)
    (profile : AnthropicModelProfile) : ScopeFree (applyThinkingPolicy body profile) := by
  unfold ClaudeCode.applyThinkingPolicy
  split
  · exact h
  · split
    · exact h
    · split
      · exact h
      · split
        · split
          · exact h.erase _
          · exact h.erase _
          · exact h.set rfl
        · split
          · exact h.set rfl
          · exact h

theorem ScopeFree.capped {profile : AnthropicModelProfile} {body result : Body ν} (h : ScopeFree body)
    (hcapped : Capped profile body result) : ScopeFree result := by
  cases hcapped with
  | same => exact h
  | deleted => exact (h.erase _).stripOutputConfigEffort
  | lowered thinking hthinking htokens =>
      refine h.set (stripScope_obj fun entry hentry => ?_)
      rcases OrderedMap.mem_set hentry with rfl | hmem
      · rfl
      · exact h.entries (by decide) hthinking entry hmem

theorem ScopeFree.applyModelProfile {body : Body ν} (h : ScopeFree body)
    (profile : AnthropicModelProfile) : ScopeFree (applyModelProfile body profile) :=
  (((h.applyEffortPolicy profile).applyThinkingPolicy profile).applyEffortPolicy profile).capped
    capThinkingBudget_capped |>.disableForcedToolChoiceWhenThinking

end Fields

/-! ## The passes over the messages -/

section Messages

variable {ν : Type} {body : Body ν} {f : List (Json ν) → List (Json ν)}

theorem get_onMessages {key : String} (hkey : key ≠ "messages") :
    (onMessages f body).get key = body.get key := by
  unfold onMessages
  split
  · rfl
  · exact OrderedMap.get_set_ne hkey

theorem messages_onMessages : arrayField ((onMessages f body).get "messages")
    = (arrayField (body.get "messages")).map f := by
  unfold onMessages
  split
  · rename_i hnone
    rw [hnone, Option.map_none]
  · rename_i messages hmessages
    rw [OrderedMap.get_set_self, hmessages]
    rfl

theorem get_sanitizeTools {key : String} (hkey : key ≠ "tools") :
    (sanitizeTools body).get key = body.get key := by
  unfold sanitizeTools
  split
  · rfl
  · exact OrderedMap.get_set_ne hkey

theorem get_prepareMessages {profile : AnthropicModelProfile} {key : String} (hmessages : key ≠ "messages")
    (htools : key ≠ "tools") : (prepareMessages body profile).get key = body.get key := by
  rw [prepareMessages, fixTrailingAssistantMessage, get_onMessages hmessages,
    rewriteMidConversationSystemMessages, get_onMessages hmessages, stripToolReferenceTurnBoundary,
    get_onMessages hmessages, mergeToolResultTextBlocks, get_onMessages hmessages,
    get_sanitizeTools htools, filterInvalidAssistantThinkingBlocks, get_onMessages hmessages]

theorem messages_prepareMessages {profile : AnthropicModelProfile} :
    arrayField ((prepareMessages body profile).get "messages")
      = (arrayField (body.get "messages")).map fun messages =>
          fixTrailing (rewriteFrom profile.acceptsMidConversationSystem none
            (((messages.map filterThinkingBlocks).map mergeToolResult).filterMap stripToolLoaded)) := by
  rw [prepareMessages, fixTrailingAssistantMessage, messages_onMessages,
    rewriteMidConversationSystemMessages, messages_onMessages, stripToolReferenceTurnBoundary,
    messages_onMessages, mergeToolResultTextBlocks, messages_onMessages, get_sanitizeTools (by decide),
    filterInvalidAssistantThinkingBlocks, messages_onMessages, Option.map_map, Option.map_map,
    Option.map_map, Option.map_map]
  rfl

theorem recordField_blocks? {message : Json ν} {object : OrderedMap String (Json ν)}
    {content : List (Json ν)} (h : blocks? message = some (object, content)) :
    message = .obj object ∧ arrayField (object.get "content") = some content := by
  cases message with
  | obj members =>
      obtain ⟨content', hcontent, heq⟩ := Option.map_eq_some_iff.mp h
      cases heq
      exact ⟨rfl, hcontent⟩
  | null | bool | num | str | arr => cases h

end Messages

/-! ## Per-message efforts -/

section OutputConfig

variable {ν : Type} {message : Json ν} {object : OrderedMap String (Json ν)}

/-- The message has no effort of its own. -/
def NoConfig (message : Json ν) : Prop :=
  (recordField (some message)).bind (·.get outputConfigKey) = none

theorem NoConfig.set (h : NoConfig (.obj object)) {key : String} (hkey : key ≠ outputConfigKey)
    (value : Json ν) : NoConfig (.obj (object.set key value)) := by
  show (object.set key value).get outputConfigKey = none
  rw [OrderedMap.get_set_ne hkey.symm]
  exact h

theorem hasMessageOutputConfig_eq_false {body : Body ν} : hasMessageOutputConfig body = false
    ↔ ∀ messages, arrayField (body.get "messages") = some messages → ∀ m ∈ messages, NoConfig m := by
  unfold hasMessageOutputConfig
  cases arrayField (body.get "messages") with
  | none => exact ⟨fun _ messages h => (by cases h), fun _ => rfl⟩
  | some messages =>
      have hmessage (m : Json ν) : ((recordField (some m)).any fun object =>
          (object.get outputConfigKey).isSome) = false ↔ NoConfig m := by
        rw [NoConfig]
        cases recordField (some m) with
        | none => simp
        | some object => simp
      simp only [List.any_eq_false, Bool.not_eq_true, hmessage, Option.some.injEq, forall_eq']

theorem noConfig_filterThinkingBlocks (h : NoConfig message) : NoConfig (filterThinkingBlocks message) := by
  unfold filterThinkingBlocks
  split
  · exact h
  · rename_i object content hblocks
    split
    · obtain ⟨rfl, -⟩ := recordField_blocks? hblocks
      exact h.set (by decide) _
    · exact h

theorem noConfig_mergeToolResult (h : NoConfig message) : NoConfig (mergeToolResult message) := by
  unfold mergeToolResult
  split
  · exact h
  · rename_i object content hblocks
    split
    · exact h
    · dsimp only
      split
      · exact h
      · split
        · exact h
        · split
          · exact h
          · split
            · exact h
            · obtain ⟨rfl, -⟩ := recordField_blocks? hblocks
              exact h.set (by decide) _

theorem noConfig_stripToolLoaded {result : Json ν} (h : NoConfig message)
    (hresult : stripToolLoaded message = some result) : NoConfig result := by
  unfold stripToolLoaded at hresult
  split at hresult
  · exact Option.some.inj hresult ▸ h
  · rename_i object content hblocks
    dsimp only at hresult
    split at hresult
    · cases hresult
    · obtain ⟨rfl, -⟩ := recordField_blocks? hblocks
      exact Option.some.inj hresult ▸ h.set (by decide) _

theorem noConfig_prefixMessageContent (h : NoConfig (.obj object)) :
    NoConfig (.obj (prefixMessageContent object)) := by
  unfold prefixMessageContent
  split
  · exact h.set (by decide) _
  · exact h.set (by decide) _
  · exact h.set (by decide) _

theorem noConfig_rewriteSystem {accepts : Bool} {previous next : Option (Json ν)} (h : NoConfig message) :
    NoConfig (rewriteSystem accepts previous next message) := by
  unfold rewriteSystem
  split
  · exact h
  · rename_i object hobject
    split
    · exact h
    · split
      · exact h
      · cases message with
        | obj members =>
            cases hobject
            exact noConfig_prefixMessageContent (h.set (by decide) _)
        | null | bool | num | str | arr => cases hobject

theorem noConfig_rewriteFrom {accepts : Bool} {previous : Option (Json ν)} {messages : List (Json ν)}
    (h : ∀ m ∈ messages, NoConfig m) : ∀ m ∈ rewriteFrom accepts previous messages, NoConfig m := by
  induction messages generalizing previous with
  | nil => exact nofun
  | cons message rest ih =>
      intro m hm
      rcases List.mem_cons.mp hm with rfl | hm
      · exact noConfig_rewriteSystem (h message List.mem_cons_self)
      · exact ih (fun m hm => h m (List.mem_cons_of_mem _ hm)) m hm

theorem noConfig_fixTrailing {messages : List (Json ν)} (h : ∀ m ∈ messages, NoConfig m) :
    ∀ m ∈ fixTrailing messages, NoConfig m := by
  unfold fixTrailing
  split
  · intro m hm
    rcases List.mem_append.mp hm with hm | hm
    · exact h m hm
    · rw [List.mem_singleton.mp hm]
      rfl
  · exact h

theorem hasMessageOutputConfig_prepareMessages {body : Body ν} {profile : AnthropicModelProfile}
    (h : hasMessageOutputConfig body = false) :
    hasMessageOutputConfig (prepareMessages body profile) = false := by
  rw [hasMessageOutputConfig_eq_false] at h ⊢
  intro messages hmessages
  rw [messages_prepareMessages] at hmessages
  obtain ⟨before, hbefore, rfl⟩ := Option.map_eq_some_iff.mp hmessages
  refine noConfig_fixTrailing (noConfig_rewriteFrom fun m hm => ?_)
  obtain ⟨merged, hmerged, hstripped⟩ := List.mem_filterMap.mp hm
  obtain ⟨filtered, hfiltered, rfl⟩ := List.mem_map.mp hmerged
  obtain ⟨message, hmessage, rfl⟩ := List.mem_map.mp hfiltered
  exact noConfig_stripToolLoaded
    (noConfig_mergeToolResult (noConfig_filterThinkingBlocks (h before hbefore message hmessage))) hstripped

end OutputConfig

end GhcpConsole.ClaudeCode
