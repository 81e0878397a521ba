import GhcpConsole.ClaudeCode.Preprocess

/-!
# Plain bodies

No pass gives an object a member `__proto__`: what a plain body is prepared to can be prepared again.
-/

namespace GhcpConsole.ClaudeCode

section Plain

variable {ν : Type}

/-! ## Values -/

theorem isPlainItems_iff {items : List (Json ν)} :
    isPlainItems items = true ↔ ∀ item ∈ items, isPlain item = true := by
  induction items with
  | nil => simp [isPlainItems]
  | cons item items ih => rw [isPlainItems, Bool.and_eq_true, ih, List.forall_mem_cons]

theorem isPlainMembers_iff {members : List (String × Json ν)} : isPlainMembers members = true
    ↔ ∀ entry ∈ members, entry.1 ≠ "__proto__" ∧ isPlain entry.2 = true := by
  induction members with
  | nil => simp [isPlainMembers]
  | cons entry members ih =>
      rw [isPlainMembers, Bool.and_eq_true, Bool.and_eq_true, decide_eq_true_iff, ih,
        List.forall_mem_cons]

variable {members : OrderedMap String (Json ν)} {key : String} {value : Json ν}

theorem isPlain_get (h : isPlainMembers members = true) (hget : members.get key = some value) :
    isPlain value = true :=
  (isPlainMembers_iff.mp h _ (OrderedMap.get_mem hget)).2

theorem isPlainMembers_set (hkey : key ≠ "__proto__") (h : isPlainMembers members = true)
    (hvalue : isPlain value = true) : isPlainMembers (members.set key value) = true := by
  refine isPlainMembers_iff.mpr fun entry hentry => ?_
  rcases OrderedMap.mem_set hentry with rfl | hmem
  · exact ⟨hkey, hvalue⟩
  · exact isPlainMembers_iff.mp h entry hmem

theorem isPlainMembers_erase (h : isPlainMembers members = true) :
    isPlainMembers (members.erase key) = true :=
  isPlainMembers_iff.mpr fun entry hentry => isPlainMembers_iff.mp h entry (OrderedMap.mem_erase hentry)

theorem isPlain_recordField (h : isPlainMembers members = true) {object : OrderedMap String (Json ν)}
    (hobject : recordField (members.get key) = some object) : isPlainMembers object = true := by
  obtain ⟨value, hget, hvalue⟩ := Option.bind_eq_some_iff.mp hobject
  cases value with
  | obj entries =>
      cases hvalue
      exact isPlain_get h hget
  | null | bool | num | str | arr => cases hvalue

theorem isPlain_arrayField (h : isPlainMembers members = true) {items : List (Json ν)}
    (hitems : arrayField (members.get key) = some items) : ∀ item ∈ items, isPlain item = true := by
  obtain ⟨value, hget, hvalue⟩ := Option.bind_eq_some_iff.mp hitems
  cases value with
  | arr entries =>
      cases hvalue
      exact isPlainItems_iff.mp (isPlain_get h hget)
  | null | bool | num | str | obj => cases hvalue

/-! ## The whole body -/

mutual

theorem isPlain_stripScope (dropScope : Bool) : (value : Json ν) → isPlain value = true →
    isPlain (stripScope dropScope value) = true
  | .null, h | .bool _, h | .num _, h | .str _, h => h
  | .arr items, h => isPlain_stripScopeItems items h
  | .obj members, h => isPlain_stripScopeMembers dropScope members h

theorem isPlain_stripScopeItems : (items : List (Json ν)) → isPlainItems items = true →
    isPlainItems (stripScopeItems items) = true
  | [], h => h
  | item :: items, h => by
      rw [isPlainItems, Bool.and_eq_true] at h
      rw [stripScopeItems, isPlainItems, isPlain_stripScope false item h.1,
        isPlain_stripScopeItems items h.2, Bool.and_self]

theorem isPlain_stripScopeMembers (dropScope : Bool) : (members : List (String × Json ν)) →
    isPlainMembers members = true → isPlainMembers (stripScopeMembers dropScope members) = true
  | [], h => h
  | (key, child) :: members, h => by
      rw [isPlainMembers, Bool.and_eq_true, Bool.and_eq_true] at h
      have hrest := isPlain_stripScopeMembers dropScope members h.2
      rw [stripScopeMembers]
      split
      · exact hrest
      · rw [isPlainMembers, h.1.1, isPlain_stripScope _ child h.1.2, hrest, Bool.and_self, Bool.and_self]

end

mutual

theorem isPlain_stripDate (isText : Bool) : (value : Json ν) → isPlain value = true →
    isPlain (stripDate isText value) = true
  | .null, h | .bool _, h | .num _, h => h
  | .str text, h => by cases isText <;> rfl
  | .arr items, h => isPlain_stripDateItems items h
  | .obj members, h => isPlain_stripDateMembers members h

theorem isPlain_stripDateItems : (items : List (Json ν)) → isPlainItems items = true →
    isPlainItems (stripDateItems items) = true
  | [], h => h
  | item :: items, h => by
      rw [isPlainItems, Bool.and_eq_true] at h
      rw [stripDateItems, isPlainItems, isPlain_stripDate false item h.1,
        isPlain_stripDateItems items h.2, Bool.and_self]

theorem isPlain_stripDateMembers : (members : List (String × Json ν)) →
    isPlainMembers members = true → isPlainMembers (stripDateMembers members) = true
  | [], h => h
  | (key, child) :: members, h => by
      rw [isPlainMembers, Bool.and_eq_true, Bool.and_eq_true] at h
      rw [stripDateMembers, isPlainMembers, h.1.1, isPlain_stripDate _ child h.1.2,
        isPlain_stripDateMembers members h.2, Bool.and_self, Bool.and_self]

end

/-! ## The policies -/

section Profile

variable {body : Body ν} {profile : AnthropicModelProfile}
  {object : OrderedMap String (Json ν)}

theorem isPlain_deleteEffort (h : isPlainMembers body = true) (hobject : isPlainMembers object = true) :
    isPlainMembers (deleteEffort body object) = true := by
  unfold deleteEffort
  dsimp only
  split
  · exact isPlainMembers_erase h
  · exact isPlainMembers_set (by decide) h (isPlainMembers_erase hobject)

theorem isPlain_applyEffortPolicy (h : isPlainMembers body = true) :
    isPlainMembers (applyEffortPolicy body profile) = true := by
  unfold applyEffortPolicy
  split
  · exact h
  · rename_i outputConfig hconfig
    split
    · exact h
    · split
      · exact h
      · split
        · exact h
        · exact isPlain_deleteEffort h (isPlain_recordField h hconfig)

theorem isPlain_disableForcedToolChoice (h : isPlainMembers body = true) :
    isPlainMembers (disableForcedToolChoiceWhenThinking body) = true := by
  unfold disableForcedToolChoiceWhenThinking
  split
  · exact h
  · split
    · exact h
    · split
      · exact isPlainMembers_set (by decide) h rfl
      · exact isPlainMembers_set (by decide) h rfl
      · exact h

variable [JsInteger ν]

theorem isPlain_applyThinkingPolicy (h : isPlainMembers body = true) :
    isPlainMembers (applyThinkingPolicy body profile) = true := by
  unfold applyThinkingPolicy
  split
  · exact h
  · split
    · exact h
    · split
      · exact h
      · split
        · split
          · exact isPlainMembers_erase h
          · exact isPlainMembers_erase h
          · exact isPlainMembers_set (by decide) h rfl
        · split
          · exact isPlainMembers_set (by decide) h rfl
          · exact h

theorem isPlain_capThinkingBudget (h : isPlainMembers body = true) :
    isPlainMembers (capThinkingBudget body profile) = true := by
  unfold capThinkingBudget
  split
  · exact h
  · rename_i thinking hthinking
    split
    · exact h
    · split
      · exact h
      · dsimp only
        split
        · have hless : isPlainMembers (body.erase "thinking") = true := isPlainMembers_erase h
          unfold stripOutputConfigEffort
          split
          · exact hless
          · rename_i outputConfig hconfig
            split
            · exact isPlain_deleteEffort hless (isPlain_recordField hless hconfig)
            · exact hless
        · split
          · have hrecord := isPlain_recordField h hthinking
            exact isPlainMembers_set (by decide) h (isPlainMembers_set (by decide) hrecord rfl)
          · exact h

theorem isPlain_applyModelProfile (h : isPlainMembers body = true) :
    isPlainMembers (applyModelProfile body profile) = true :=
  isPlain_disableForcedToolChoice (isPlain_capThinkingBudget (isPlain_applyEffortPolicy
    (isPlain_applyThinkingPolicy (isPlain_applyEffortPolicy h))))

end Profile

/-! ## The messages -/

section Messages

variable {object : OrderedMap String (Json ν)} {content messages : List (Json ν)} {message : Json ν}

/-- All values in the list are plain. -/
abbrev PlainAll (values : List (Json ν)) : Prop := ∀ value ∈ values, isPlain value = true

theorem isPlain_blocks (h : isPlain message = true) (hblocks : blocks? message = some (object, content)) :
    isPlainMembers object = true ∧ PlainAll content := by
  cases message with
  | obj members =>
      obtain ⟨items, hitems, heq⟩ := Option.map_eq_some_iff.mp hblocks
      cases heq
      exact ⟨h, isPlain_arrayField h hitems⟩
  | null | bool | num | str | arr => cases hblocks

theorem isPlain_withBlocks (h : isPlainMembers object = true) (hcontent : PlainAll content) :
    isPlain (withBlocks object content) = true :=
  isPlainMembers_set (by decide) h (isPlainItems_iff.mpr hcontent)

theorem PlainAll.filter (h : PlainAll content) (p : Json ν → Bool) : PlainAll (content.filter p) :=
  fun value hvalue => h value (List.mem_filter.mp hvalue).1

theorem isPlain_filterThinkingBlocks (h : isPlain message = true) :
    isPlain (filterThinkingBlocks message) = true := by
  unfold filterThinkingBlocks
  split
  · exact h
  · rename_i object content hblocks
    obtain ⟨hobject, hcontent⟩ := isPlain_blocks h hblocks
    split
    · exact isPlain_withBlocks hobject (hcontent.filter _)
    · exact h

theorem isPlain_appendText (h : isPlainMembers object = true) (text : String) :
    isPlainMembers (appendTextToToolResult object text) = true := by
  unfold appendTextToToolResult
  split
  · exact isPlainMembers_set (by decide) h rfl
  · exact isPlainMembers_set (by decide) h rfl
  · rename_i items hitems
    refine isPlainMembers_set (by decide) h
      (isPlainItems_iff.mpr (List.forall_mem_append.mpr ⟨?_, ?_⟩))
    · exact isPlainItems_iff.mp (isPlain_get h hitems)
    · exact List.forall_mem_singleton.mpr rfl
  · exact isPlainMembers_set (by decide) h rfl

theorem isPlain_mergeToolResult (h : isPlain message = true) :
    isPlain (mergeToolResult message) = true := by
  unfold mergeToolResult
  split
  · exact h
  · rename_i object content hblocks
    obtain ⟨hobject, hcontent⟩ := isPlain_blocks h hblocks
    split
    · exact h
    · dsimp only
      split
      · exact h
      · split
        · exact h
        · rename_i i hi
          split
          · exact h
          · rename_i target htarget
            split
            · exact h
            · have hrebuilt := hcontent.filter fun block => (blockText block).isNone
              refine isPlain_withBlocks hobject fun value hvalue => ?_
              rcases List.mem_or_eq_of_mem_set hvalue with hmem | rfl
              · exact hrebuilt value hmem
              · obtain ⟨item, hitem, hmembers⟩ := Option.bind_eq_some_iff.mp htarget
                cases item with
                | obj members =>
                    cases hmembers
                    exact isPlain_appendText (hrebuilt _ (List.mem_of_getElem? hitem)) _
                | null | bool | num | str | arr => cases hmembers

theorem isPlain_stripToolLoaded (h : isPlain message = true) {result : Json ν}
    (hresult : stripToolLoaded message = some result) : isPlain result = true := by
  unfold stripToolLoaded at hresult
  split at hresult
  · exact Option.some.inj hresult ▸ h
  · rename_i object content hblocks
    obtain ⟨hobject, hcontent⟩ := isPlain_blocks h hblocks
    dsimp only at hresult
    split at hresult
    · cases hresult
    · exact Option.some.inj hresult ▸ isPlain_withBlocks hobject (hcontent.filter _)

theorem plainAll_markFirstText {marked : List (Json ν)} (h : PlainAll content)
    (hmarked : markFirstText content = some marked) : PlainAll marked := by
  induction content generalizing marked with
  | nil => cases hmarked
  | cons block rest ih =>
      obtain ⟨hblock, hrest⟩ := List.forall_mem_cons.mp h
      unfold markFirstText at hmarked
      split at hmarked
      · rename_i object text hobject htext
        cases block with
        | obj members =>
            cases hobject
            exact Option.some.inj hmarked
              ▸ List.forall_mem_cons.mpr ⟨isPlainMembers_set (by decide) hblock rfl, hrest⟩
        | null | bool | num | str | arr => cases hobject
      · obtain ⟨tail, htail, rfl⟩ := Option.map_eq_some_iff.mp hmarked
        exact List.forall_mem_cons.mpr ⟨hblock, ih hrest htail⟩

theorem isPlain_prefixMessageContent (h : isPlainMembers object = true) :
    isPlainMembers (prefixMessageContent object) = true := by
  unfold prefixMessageContent
  split
  · exact isPlainMembers_set (by decide) h rfl
  · rename_i content hcontent
    have hitems : PlainAll content := isPlainItems_iff.mp (isPlain_get h hcontent)
    refine isPlainMembers_set (by decide) h (isPlainItems_iff.mpr ?_)
    cases hmarked : markFirstText content with
    | none => exact List.forall_mem_cons.mpr ⟨rfl, hitems⟩
    | some marked => exact plainAll_markFirstText hitems hmarked
  · exact isPlainMembers_set (by decide) h rfl

theorem isPlain_rewriteSystem {accepts : Bool} {previous next : Option (Json ν)}
    (h : isPlain message = true) : isPlain (rewriteSystem accepts previous next message) = true := by
  unfold rewriteSystem
  split
  · exact h
  · rename_i object hobject
    split
    · exact h
    · split
      · exact h
      · cases message with
        | obj members =>
            cases hobject
            exact isPlain_prefixMessageContent (isPlainMembers_set (by decide) h rfl)
        | null | bool | num | str | arr => cases hobject

theorem plainAll_rewriteFrom {accepts : Bool} {previous : Option (Json ν)} (h : PlainAll messages) :
    PlainAll (rewriteFrom accepts previous messages) := by
  induction messages generalizing previous with
  | nil => exact h
  | cons message rest ih =>
      obtain ⟨hmessage, hrest⟩ := List.forall_mem_cons.mp h
      exact List.forall_mem_cons.mpr ⟨isPlain_rewriteSystem hmessage, ih hrest⟩

theorem plainAll_fixTrailing (h : PlainAll messages) : PlainAll (fixTrailing messages) := by
  unfold fixTrailing
  split
  · exact List.forall_mem_append.mpr ⟨h, List.forall_mem_singleton.mpr rfl⟩
  · exact h

variable {body : Body ν} {f : List (Json ν) → List (Json ν)}

theorem isPlain_onMessages (hf : ∀ messages, PlainAll messages → PlainAll (f messages))
    (h : isPlainMembers body = true) : isPlainMembers (onMessages f body) = true := by
  unfold onMessages
  split
  · exact h
  · rename_i messages hmessages
    have hplain : PlainAll messages := isPlain_arrayField h hmessages
    exact isPlainMembers_set (by decide) h (isPlainItems_iff.mpr (hf messages hplain))

theorem isPlain_sanitizeTools (h : isPlainMembers body = true) :
    isPlainMembers (sanitizeTools body) = true := by
  unfold sanitizeTools
  split
  · exact h
  · rename_i tools htools
    have hplain : PlainAll tools := isPlain_arrayField h htools
    exact isPlainMembers_set (by decide) h (isPlainItems_iff.mpr (hplain.filter _))

theorem isPlain_prepareMessages {profile : AnthropicModelProfile} (h : isPlainMembers body = true) :
    isPlainMembers (prepareMessages body profile) = true := by
  have hmap {g : Json ν → Json ν}
      (hg : ∀ message, isPlain message = true → isPlain (g message) = true) (messages : List (Json ν))
      (hmessages : PlainAll messages) : PlainAll (messages.map g) := by
    intro value hvalue
    obtain ⟨message, hmem, rfl⟩ := List.mem_map.mp hvalue
    exact hg message (hmessages message hmem)
  have hdrop (messages : List (Json ν)) (hmessages : PlainAll messages) :
      PlainAll (messages.filterMap stripToolLoaded) := by
    intro value hvalue
    obtain ⟨message, hmem, hresult⟩ := List.mem_filterMap.mp hvalue
    exact isPlain_stripToolLoaded (hmessages message hmem) hresult
  refine isPlain_onMessages (fun _ => plainAll_fixTrailing) (isPlain_onMessages
    (fun _ => plainAll_rewriteFrom) (isPlain_onMessages hdrop (isPlain_onMessages
      (hmap fun _ => isPlain_mergeToolResult) (isPlain_sanitizeTools (isPlain_onMessages
        (hmap fun _ => isPlain_filterThinkingBlocks) h)))))

/-- The prepared body is plain. -/
theorem isPlain_preprocess [JsInteger ν] (h : isPlainMembers body = true) :
    isPlainMembers (preprocessClaudeCodeMessagesBody body) = true := by
  unfold preprocessClaudeCodeMessagesBody
  split
  · exact h
  · exact isPlain_prepareMessages (isPlain_applyModelProfile
      (isPlain_stripDateMembers _ (isPlain_stripScopeMembers false _ h)))

end Messages

end Plain

end GhcpConsole.ClaudeCode
