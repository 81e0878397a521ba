import GhcpConsole.ClaudeCode.Conversation

/-!
# The texts of the messages

A text is carried through the passes by what shows it: the content of a message, a block, or a tool
result that it has been moved to (`Shows`). A block shows its text without the white space around it,
since that is how it is moved; a tool result shows it somewhere in its own text.
-/

namespace GhcpConsole.ClaudeCode

section Texts

variable {ν : Type} {message : Json ν} {t : List Char}

/-! ## Texts -/

def contentText (value : Json ν) : Option String := stringField (contentField value)

/-- The content, or the texts of its blocks. -/
def messageTexts (value : Json ν) : List String :=
  match contentText value with
  | some text => [text]
  | none => (contentOf value).filterMap blockText

def blockTexts (block : Json ν) : List String :=
  (blockText block).toList ++ if isType "tool_result" block then messageTexts block else []

/-- The texts of a message with those of its tool results. -/
def shownTexts (message : Json ν) : List String :=
  match contentText message with
  | some text => [text]
  | none => (contentOf message).flatMap blockTexts

/-- The shown texts but for those in a tool result whose content is a bare block: that one would be
overwritten. -/
def listedTexts (message : Json ν) : List String :=
  match contentText message with
  | some text => [text]
  | none => (contentOf message).flatMap fun block =>
      if isBare block then (blockText block).toList else blockTexts block

/-- A tool result whose content is no bare block shows the text. -/
structure ResultShows (t : List Char) (block : Json ν) : Prop where
  result : isType "tool_result" block = true
  listed : isBare block = false
  shown : ∃ text ∈ messageTexts block, t <:+: text.toList

inductive Shows (t : List Char) (message : Json ν) : Prop
  | content (text : String) (htext : contentText message = some text) (ht : t <:+: text.toList)
  | block (block : Json ν) (hmem : block ∈ contentOf message) (text : String)
      (htext : blockText block = some text) (ht : trim text.toList = t)
  | result (block : Json ν) (hmem : block ∈ contentOf message) (h : ResultShows t block)

theorem Shows.of_mem {text : String} (h : text ∈ listedTexts message) (ht : trim text.toList = t) :
    Shows t message := by
  have hinfix : t <:+: text.toList := ht ▸ trim_isInfix
  unfold listedTexts at h
  split at h
  · rename_i content hcontent
    exact .content content hcontent (List.mem_singleton.mp h ▸ hinfix)
  · obtain ⟨block, hblock, hmem⟩ := List.mem_flatMap.mp h
    split at hmem
    · exact .block block hblock text (Option.mem_toList.mp hmem) ht
    · rename_i hbare
      rcases List.mem_append.mp hmem with hmem | hmem
      · exact .block block hblock text (Option.mem_toList.mp hmem) ht
      · split at hmem
        · rename_i hresult
          exact .result block hblock ⟨hresult, eq_false_of_ne_true hbare, text, hmem, hinfix⟩
        · cases hmem

/-! ## The passes before the system messages -/

theorem contentText_eq_none {object : OrderedMap String (Json ν)} {content : List (Json ν)}
    (h : blocks? message = some (object, content)) : contentText message = none := by
  obtain ⟨rfl, harray⟩ := recordField_blocks? h
  show stringField (object.get "content") = none
  cases hcontent : object.get "content" with
  | none => rfl
  | some value =>
      cases value with
      | str text =>
          rw [hcontent] at harray
          cases harray
      | null | bool | num | arr | obj => rfl

/-- The blocks are replaced by others that show the text. -/
theorem Shows.withBlocks {object : OrderedMap String (Json ν)} {content content' : List (Json ν)}
    (h : Shows t message) (hblocks : blocks? message = some (object, content))
    (hblock : ∀ block ∈ content, ∀ text, blockText block = some text → trim text.toList = t →
      block ∈ content' ∨ ∃ result ∈ content', ResultShows t result)
    (hresult : ∀ block ∈ content, ResultShows t block → ∃ result ∈ content', ResultShows t result) :
    Shows t (withBlocks object content') := by
  have hcontent : contentOf (ClaudeCode.withBlocks object content') = content' := contentOf_withBlocks _ _
  cases h with
  | content text htext ht =>
      rw [contentText_eq_none hblocks] at htext
      cases htext
  | block block hmem text htext ht =>
      rw [contentOf_blocks? hblocks] at hmem
      rcases hblock block hmem text htext ht with hkept | ⟨result, hmem', hshows⟩
      · exact .block block (hcontent.symm ▸ hkept) text htext ht
      · exact .result result (hcontent.symm ▸ hmem') hshows
  | result block hmem hshows =>
      rw [contentOf_blocks? hblocks] at hmem
      obtain ⟨result, hmem', hshows'⟩ := hresult block hmem hshows
      exact .result result (hcontent.symm ▸ hmem') hshows'

theorem isType_unique {type type' : String} {block : Json ν} (h : isType type block = true)
    (hne : type' ≠ type) : isType type' block = false := by
  have htype : textOf "type" block = some type := of_decide_eq_true h
  rw [isType, htype]
  exact decide_eq_false fun heq => hne (Option.some.inj heq).symm

theorem blockText_of_result {block : Json ν} (h : isType "tool_result" block = true) :
    blockText block = none := by
  rw [blockText, isType_unique h (by decide)]
  rfl

theorem Shows.filterThinkingBlocks (h : Shows t message) : Shows t (filterThinkingBlocks message) := by
  unfold ClaudeCode.filterThinkingBlocks
  split
  · exact h
  · rename_i object content hblocks
    split
    · have hvalid {block : Json ν} {type : String} (htype : isType type block = true)
          (hne : "thinking" ≠ type) : (!isInvalidThinkingBlock block) = true := by
        rw [isInvalidThinkingBlock, isType_unique htype hne]
        rfl
      refine h.withBlocks hblocks (fun block hmem text htext _ => Or.inl ?_)
        fun block hmem hshows => ⟨block, ?_, hshows⟩
      · exact List.mem_filter.mpr
          ⟨hmem, hvalid (isType_of_blockText (by rw [htext]; rfl)) (by decide)⟩
      · exact List.mem_filter.mpr ⟨hmem, hvalid hshows.result (by decide)⟩
    · exact h

/-! ## Texts in tool results -/

theorem messageTexts_of_string {object : OrderedMap String (Json ν)} {text : String}
    (h : object.get "content" = some (.str text)) : messageTexts (.obj object) = [text] := by
  have hcontent : contentText (.obj object) = some text := by
    show stringField (object.get "content") = some text
    rw [h]
    rfl
  rw [messageTexts, hcontent]

theorem messageTexts_of_array {object : OrderedMap String (Json ν)} {items : List (Json ν)}
    (h : object.get "content" = some (.arr items)) :
    messageTexts (.obj object) = items.filterMap blockText := by
  have hcontent : contentText (.obj object) = none := by
    show stringField (object.get "content") = none
    rw [h]
    rfl
  have harray : arrayField (object.get "content") = some items := by
    rw [h]
    rfl
  rw [messageTexts, hcontent, contentOf_of_get harray]

theorem messageTexts_of_neither {value : Json ν} (hstring : stringField (contentField value) = none)
    (harray : arrayField (contentField value) = none) (hbare : isBare value = false) :
    messageTexts value = [] := by
  have hcontent : contentText value = none := hstring
  rw [messageTexts, hcontent, contentOf_of_none harray hbare]
  rfl

theorem neither_of_ne {value : Json ν} (hstring : ∀ text, value = .str text → False)
    (harray : ∀ items, value = .arr items → False) :
    stringField (some value) = none ∧ arrayField (some value) = none := by
  cases value with
  | str text => exact (hstring text rfl).elim
  | arr items => exact (harray items rfl).elim
  | null | bool | num | obj => exact ⟨rfl, rfl⟩

/-- The text is in the result after it has been appended. -/
theorem mem_appendText (target : OrderedMap String (Json ν)) (text : String) :
    ∃ shown ∈ messageTexts (.obj (appendTextToToolResult target text)), text.toList <:+: shown.toList := by
  unfold appendTextToToolResult
  split
  · rw [messageTexts_of_string OrderedMap.get_set_self]
    exact ⟨text, List.mem_singleton_self _, List.infix_rfl⟩
  · rw [messageTexts_of_string OrderedMap.get_set_self]
    refine ⟨_, List.mem_singleton_self _, ?_⟩
    split
    · rw [String.toList_append]
      exact (List.suffix_append _ _).isInfix
    · exact List.infix_rfl
  · rw [messageTexts_of_array OrderedMap.get_set_self, List.filterMap_append]
    exact ⟨text, List.mem_append_right _ (List.mem_singleton_self _), List.infix_rfl⟩
  · rw [messageTexts_of_array OrderedMap.get_set_self]
    exact ⟨text, List.mem_singleton_self _, List.infix_rfl⟩

theorem isBare_appendText (target : OrderedMap String (Json ν)) (text : String) :
    isBare (.obj (appendTextToToolResult target text)) = false := by
  show (recordField ((appendTextToToolResult target text).get "content")).isSome = false
  unfold appendTextToToolResult
  split <;> rw [OrderedMap.get_set_self] <;> rfl

/-- What the result showed before is still in it. -/
theorem appendText_keeps {target : OrderedMap String (Json ν)} (text : String)
    (hbare : isBare (.obj target) = false) (hvisible : ∃ c ∈ t, isTrimmed c = false) {before : String}
    (hmem : before ∈ messageTexts (.obj target)) (ht : t <:+: before.toList) :
    ∃ shown ∈ messageTexts (.obj (appendTextToToolResult target text)), t <:+: shown.toList := by
  unfold appendTextToToolResult
  split
  · rename_i hnone
    have hfield : contentField (.obj target) = none := hnone
    rw [messageTexts_of_neither (by rw [hfield]; rfl) (by rw [hfield]; rfl) hbare] at hmem
    cases hmem
  · rename_i content hcontent
    rw [messageTexts_of_string hcontent, List.mem_singleton] at hmem
    rw [messageTexts_of_string OrderedMap.get_set_self]
    refine ⟨_, List.mem_singleton_self _, ?_⟩
    have hne : trim content.toList ≠ [] := by
      obtain ⟨c, hc, hkeep⟩ := hvisible
      exact List.ne_nil_of_mem (mem_trim (hmem ▸ ht.subset hc) hkeep)
    rw [if_pos hne, String.toList_append, String.toList_append, List.append_assoc]
    exact (hmem ▸ ht).trans (List.prefix_append _ _).isInfix
  · rename_i items hitems
    rw [messageTexts_of_array hitems] at hmem
    rw [messageTexts_of_array OrderedMap.get_set_self, List.filterMap_append]
    exact ⟨before, List.mem_append_left _ hmem, ht⟩
  · rename_i value hstring harray hvalue
    have hneither := neither_of_ne hstring harray
    have hfield : contentField (.obj target) = some value := hvalue
    rw [messageTexts_of_neither (by rw [hfield]; exact hneither.1) (by rw [hfield]; exact hneither.2)
      hbare] at hmem
    cases hmem

theorem mem_set_or {l : List (Json ν)} {i : Nat} {x y z : Json ν} (hx : l[i]? = some x) (hz : z ∈ l) :
    z = x ∨ z ∈ l.set i y := by
  obtain ⟨j, hj⟩ := List.getElem?_of_mem hz
  by_cases hij : i = j
  · rw [← hij, hx] at hj
    exact Or.inl (Option.some.inj hj).symm
  · exact Or.inr (List.mem_of_getElem? ((List.getElem?_set_ne hij).trans hj))

theorem infix_joinParts {parts : List (List Char)} {part : List Char} (h : part ∈ parts) :
    part <:+: (joinParts parts).toList := by
  rw [joinParts, String.toList_ofList]
  induction parts with
  | nil => cases h
  | cons first rest ih =>
      cases rest with
      | nil =>
          obtain rfl := List.mem_singleton.mp h
          exact (congrArg (part <:+: ·) List.intercalate_singleton).mpr List.infix_rfl
      | cons second rest =>
          rw [List.intercalate_cons_cons, List.append_assoc]
          rcases List.mem_cons.mp h with rfl | h
          · exact (List.prefix_append _ _).isInfix
          · exact (ih h).trans ((List.suffix_append _ _).trans (List.suffix_append _ _)).isInfix

theorem Shows.mergeToolResult (h : Shows t message)
    (hvisible : ∃ c ∈ t, isTrimmed c = false) : Shows t (mergeToolResult message) := by
  have hmerged := mergeToolResult_merged message
  generalize ClaudeCode.mergeToolResult message = merged at hmerged ⊢
  cases hmerged with
  | same => exact h
  | moved object content i target hblocks htarget hresult =>
      have hlt := (List.getElem?_eq_some_iff.mp htarget).1
      have happended : isType "tool_result" (.obj (appendTextToToolResult target
          (joinParts (textParts content)))) = true := by
        have hsame : textOf "type" (.obj (appendTextToToolResult target
            (joinParts (textParts content)))) = textOf "type" (.obj target) := by
          show stringField ((appendTextToToolResult target _).get "type") = stringField (target.get "type")
          unfold appendTextToToolResult
          split <;> rw [OrderedMap.get_set_ne (by decide)]
        rw [isType, hsame]
        exact hresult
      have hbare := isBare_appendText target (joinParts (textParts content))
      refine h.withBlocks hblocks (fun block hmem text htext ht => Or.inr ?_)
        fun block hmem hshows => ?_
      · -- The text is one of the parts.
        have hpart : t ∈ textParts content := by
          refine List.mem_filter.mpr ⟨List.mem_filterMap.mpr ⟨block, hmem, ?_⟩, ?_⟩
          · rw [htext, Option.map_some, ht]
          · obtain ⟨c, hc, -⟩ := hvisible
            exact decide_eq_true (List.ne_nil_of_mem hc)
        obtain ⟨shown, hshown, hinfix⟩ := mem_appendText target (joinParts (textParts content))
        exact ⟨_, List.mem_set hlt _, happended, hbare, shown, hshown, (infix_joinParts hpart).trans hinfix⟩
      · have hkept : block ∈ content.filter fun block => (blockText block).isNone :=
          List.mem_filter.mpr ⟨hmem, by rw [blockText_of_result hshows.result]; rfl⟩
        rcases mem_set_or htarget hkept with rfl | hother
        · obtain ⟨text, htext, ht⟩ := hshows.shown
          exact ⟨_, List.mem_set hlt _, happended, hbare,
            appendText_keeps _ hshows.listed hvisible htext ht⟩
        · exact ⟨block, hother, hshows⟩

theorem not_shows_empty {object : OrderedMap String (Json ν)} :
    ¬ Shows t (ClaudeCode.withBlocks object []) := by
  have hcontent : contentOf (ClaudeCode.withBlocks object []) = [] := contentOf_withBlocks object []
  intro h
  cases h with
  | content text htext =>
      have hnone : contentText (ClaudeCode.withBlocks object []) = none := by
        show stringField ((object.set "content" _).get "content") = none
        rw [OrderedMap.get_set_self]
        rfl
      rw [hnone] at htext
      cases htext
  | block block hmem =>
      rw [hcontent] at hmem
      cases hmem
  | result block hmem =>
      rw [hcontent] at hmem
      cases hmem

/-- A message that shows a text other than the marker is not dropped. -/
theorem Shows.stripToolLoaded (h : Shows t message) (hmarker : t ≠ toolLoadedMarker.toList) :
    ∃ result, stripToolLoaded message = some result ∧ Shows t result := by
  unfold ClaudeCode.stripToolLoaded
  split
  · exact ⟨message, rfl, h⟩
  · rename_i object content hblocks
    have hshows : Shows t (ClaudeCode.withBlocks object
        (content.filter fun block => !isToolLoaded block)) := by
      refine h.withBlocks hblocks (fun block hmem text htext ht => Or.inl ?_)
        fun block hmem hshows => ⟨block, ?_, hshows⟩
      · refine List.mem_filter.mpr ⟨hmem, ?_⟩
        rw [isToolLoaded, htext, Option.any_some, ht, decide_eq_false hmarker]
        rfl
      · refine List.mem_filter.mpr ⟨hmem, ?_⟩
        rw [isToolLoaded, blockText_of_result hshows.result]
        rfl
    dsimp only
    split
    · rename_i hempty
      rw [List.isEmpty_iff.mp hempty] at hshows
      exact absurd hshows not_shows_empty
    · exact ⟨_, rfl, hshows⟩

/-! ## The system messages and the end -/

/-- The text stands somewhere in the texts of the message. -/
def Occurs (t : List Char) (message : Json ν) : Prop := ∃ text ∈ shownTexts message, t <:+: text.toList

/-- The text stands somewhere in the texts of the block. -/
def OccursIn (t : List Char) (block : Json ν) : Prop := ∃ text ∈ blockTexts block, t <:+: text.toList

theorem contentOf_of_contentText {text : String} (h : contentText message = some text) :
    contentOf message = [] := by
  obtain ⟨value, hcontent, hvalue⟩ := Option.bind_eq_some_iff.mp h
  rw [contentOf, hcontent, Json.string?_eq_some.mp hvalue]
  rfl

theorem occurs_of_block {block : Json ν} (hmem : block ∈ contentOf message) (h : OccursIn t block) :
    Occurs t message := by
  obtain ⟨text, htext, ht⟩ := h
  unfold Occurs shownTexts
  cases hcontent : contentText message with
  | none => exact ⟨text, List.mem_flatMap.mpr ⟨block, hmem, htext⟩, ht⟩
  | some content =>
      rw [contentOf_of_contentText hcontent] at hmem
      cases hmem

theorem block_of_occurs (hcontent : contentText message = none) (h : Occurs t message) :
    ∃ block ∈ contentOf message, OccursIn t block := by
  obtain ⟨text, htext, ht⟩ := h
  rw [shownTexts, hcontent] at htext
  obtain ⟨block, hblock, htext⟩ := List.mem_flatMap.mp htext
  exact ⟨block, hblock, text, htext, ht⟩

theorem Shows.occurs (h : Shows t message) : Occurs t message := by
  cases h with
  | content text htext ht =>
      rw [Occurs, shownTexts, htext]
      exact ⟨text, List.mem_singleton_self _, ht⟩
  | block block hmem text htext ht =>
      refine occurs_of_block hmem ⟨text, List.mem_append_left _ ?_, ht ▸ trim_isInfix⟩
      rw [htext]
      exact List.mem_singleton_self _
  | result block hmem hshows =>
      obtain ⟨text, htext, ht⟩ := hshows.shown
      refine occurs_of_block hmem ⟨text, List.mem_append_right _ ?_, ht⟩
      rw [if_pos hshows.result]
      exact htext

theorem blockTexts_of_text {block : Json ν} {text : String} (h : blockText block = some text) :
    blockTexts block = [text] := by
  have htype : isType "text" block = true := isType_of_blockText (by rw [h]; rfl)
  rw [blockTexts, h, isType_unique htype (by decide)]
  rfl

theorem infix_marked {text : String} (h : t <:+: text.toList) :
    t <:+: (injectedSystemMarker ++ text).toList := by
  rw [String.toList_append]
  exact h.trans (List.suffix_append _ _).isInfix

theorem blockText_set {block : Json ν} {object : OrderedMap String (Json ν)} {text : String}
    (hobject : recordField (some block) = some object) (htext : blockText block = some text)
    (marked : String) : blockText (.obj (object.set "text" (.str marked))) = some marked := by
  have hsame : textOf "type" (.obj (object.set "text" (.str marked))) = textOf "type" block := by
    rw [textOf, textOf, hobject]
    show stringField ((object.set "text" _).get "type") = stringField (object.get "type")
    rw [OrderedMap.get_set_ne (by decide)]
  have htype : isType "text" (.obj (object.set "text" (.str marked))) = true := by
    rw [isType, hsame]
    exact isType_of_blockText (by rw [htext]; rfl)
  rw [blockText, if_pos htype]
  show stringField ((object.set "text" _).get "text") = some marked
  rw [OrderedMap.get_set_self]
  rfl

theorem occursIn_markFirstText {blocks marked : List (Json ν)} (h : markFirstText blocks = some marked)
    {block : Json ν} (hmem : block ∈ blocks) (hoccurs : OccursIn t block) :
    ∃ block ∈ marked, OccursIn t block := by
  induction blocks generalizing marked with
  | nil => cases h
  | cons first rest ih =>
      unfold markFirstText at h
      split at h
      · rename_i object text hobject htext
        obtain rfl := Option.some.inj h
        rcases List.mem_cons.mp hmem with rfl | hmem
        · refine ⟨_, List.mem_cons_self, injectedSystemMarker ++ text, ?_, ?_⟩
          · rw [blockTexts_of_text (blockText_set hobject htext _)]
            exact List.mem_singleton_self _
          · obtain ⟨shown, hshown, ht⟩ := hoccurs
            rw [blockTexts_of_text htext, List.mem_singleton] at hshown
            exact infix_marked (hshown ▸ ht)
        · exact ⟨block, List.mem_cons_of_mem _ hmem, hoccurs⟩
      · obtain ⟨tail, htail, rfl⟩ := Option.map_eq_some_iff.mp h
        rcases List.mem_cons.mp hmem with rfl | hmem
        · exact ⟨block, List.mem_cons_self, hoccurs⟩
        · obtain ⟨block', hmem', hoccurs'⟩ := ih htail hmem
          exact ⟨block', List.mem_cons_of_mem _ hmem', hoccurs'⟩

theorem Occurs.prefixMessageContent {object : OrderedMap String (Json ν)} (h : Occurs t (.obj object))
    (hbare : isBare (.obj object) = false) : Occurs t (.obj (prefixMessageContent object)) := by
  unfold ClaudeCode.prefixMessageContent
  split
  · rename_i text htext
    have hbefore : contentText (.obj object) = some text := by
      show stringField (object.get "content") = some text
      rw [htext]
      rfl
    have hafter : contentText (.obj (object.set "content" (.str (injectedSystemMarker ++ text))))
        = some (injectedSystemMarker ++ text) := by
      show stringField ((object.set "content" _).get "content") = _
      rw [OrderedMap.get_set_self]
      rfl
    obtain ⟨shown, hshown, ht⟩ := h
    rw [shownTexts, hbefore, List.mem_singleton] at hshown
    rw [Occurs, shownTexts, hafter]
    exact ⟨_, List.mem_singleton_self _, infix_marked (hshown ▸ ht)⟩
  · rename_i content hcontent
    have hblocks : blocks? (.obj object) = some (object, content) := by
      show (arrayField (object.get "content")).map _ = _
      rw [hcontent]
      rfl
    obtain ⟨block, hmem, hoccurs⟩ := block_of_occurs (contentText_eq_none hblocks) h
    rw [contentOf_blocks? hblocks] at hmem
    have hafter (content' : List (Json ν)) {block : Json ν} (hmem : block ∈ content')
        (hoccurs : OccursIn t block) : Occurs t (ClaudeCode.withBlocks object content') :=
      occurs_of_block (by rw [contentOf_withBlocks]; exact hmem) hoccurs
    cases hmarked : markFirstText content with
    | none => exact hafter _ (List.mem_cons_of_mem _ hmem) hoccurs
    | some marked =>
        obtain ⟨block', hmem', hoccurs'⟩ := occursIn_markFirstText hmarked hmem hoccurs
        exact hafter _ hmem' hoccurs'
  · rename_i hstring harray
    have hneither : stringField (contentField (.obj object)) = none
        ∧ arrayField (contentField (.obj object)) = none := by
      show stringField (object.get "content") = none ∧ arrayField (object.get "content") = none
      cases hcontent : object.get "content" with
      | none => exact ⟨rfl, rfl⟩
      | some value =>
          exact neither_of_ne (fun text htext => hstring text (htext ▸ hcontent))
            fun items hitems => harray items (hitems ▸ hcontent)
    have hnone : contentText (.obj object) = none := hneither.1
    obtain ⟨block, hmem, -⟩ := block_of_occurs hnone h
    rw [contentOf_of_none hneither.2 hbare] at hmem
    cases hmem

theorem Occurs.rewriteSystem {accepts : Bool} {previous next : Option (Json ν)} (h : Occurs t message)
    (hlisted : SystemListed message) : Occurs t (rewriteSystem accepts previous next message) := by
  have hrewritten := rewriteSystem_rewritten accepts previous next message
  generalize ClaudeCode.rewriteSystem accepts previous next message = result at hrewritten ⊢
  cases hrewritten with
  | other => exact h
  | legal => exact h
  | injected object hobject hsystem =>
      have hcontent : contentField (.obj (object.set "role" (.str "user"))) = contentField message := by
        rw [contentField_set_role, hobject]
      refine Occurs.prefixMessageContent ?_ ?_
      · rw [Occurs, shownTexts, contentText, contentOf, hcontent]
        rw [Occurs, shownTexts, contentText, contentOf] at h
        exact h
      · rw [isBare, hcontent]
        exact hlisted hsystem

theorem occurs_rewriteFrom (accepts : Bool) (previous : Option (Json ν)) {messages : List (Json ν)}
    (hmem : message ∈ messages) (hlisted : SystemListed message) (h : Occurs t message) :
    ∃ result ∈ rewriteFrom accepts previous messages, Occurs t result := by
  induction messages generalizing previous with
  | nil => cases hmem
  | cons first rest ih =>
      rcases List.mem_cons.mp hmem with rfl | hmem
      · exact ⟨_, List.mem_cons_self, h.rewriteSystem hlisted⟩
      · obtain ⟨result, hresult, hoccurs⟩ := ih _ hmem
        exact ⟨result, List.mem_cons_of_mem _ hresult, hoccurs⟩

/-! ## All passes -/

theorem contentText_stripScope (value : Json ν) :
    contentText (stripScope false value) = contentText value := textOf_stripScope "content" value

theorem blockText_stripScope (block : Json ν) : blockText (stripScope false block) = blockText block := by
  rw [blockText, blockText, isType, isType, textOf_stripScope, textOf_stripScope]

theorem messageTexts_stripScope (value : Json ν) :
    messageTexts (stripScope false value) = messageTexts value := by
  rw [messageTexts, messageTexts, contentText_stripScope, contentOf_stripScope, List.filterMap_map]
  cases contentText value with
  | some text => rfl
  | none => exact List.filterMap_congr fun block _ => blockText_stripScope block

theorem listedTexts_stripScope (message : Json ν) :
    listedTexts (stripScope false message) = listedTexts message := by
  rw [listedTexts, listedTexts, contentText_stripScope, contentOf_stripScope, List.flatMap_map]
  cases contentText message with
  | some text => rfl
  | none =>
      refine congrArg List.flatten (List.map_congr_left fun block _ => ?_)
      rw [isBare_stripScope, blockTexts, blockTexts, blockText_stripScope, messageTexts_stripScope, isType,
        isType, textOf_stripScope]

/-- A text of a message, without its dates and the white space around it, occurs in the result. -/
theorem occurs_preparedMessages (accepts : Bool) {messages : List (Json ν)} (hmem : message ∈ messages)
    (hsystem : SystemListed message) {text : String} (htext : text ∈ listedTexts (stripDate false message))
    (hblank : trim text.toList ≠ []) (hmarker : trim text.toList ≠ toolLoadedMarker.toList) :
    ∃ result ∈ preparedMessages accepts messages, Occurs (trim text.toList) result := by
  have hshows : Shows (trim text.toList) (stripDate false (stripScope false message)) := by
    rw [← stripScope_stripDate]
    exact Shows.of_mem (by rw [listedTexts_stripScope]; exact htext) rfl
  obtain ⟨prepared, hprepared, hshown⟩ :=
    (hshows.filterThinkingBlocks.mergeToolResult (exists_mem_trim hblank)).stripToolLoaded hmarker
  have hmem : prepared ∈ messages.filterMap prepareMessage :=
    List.mem_filterMap.mpr ⟨message, hmem, hprepared⟩
  obtain ⟨result, hresult, hoccurs⟩ :=
    occurs_rewriteFrom accepts none hmem (hsystem.prepareMessage hprepared) hshown.occurs
  refine ⟨result, ?_, hoccurs⟩
  rw [preparedMessages, fixTrailing]
  split
  · exact List.mem_append_left _ hresult
  · exact hresult

end Texts

end GhcpConsole.ClaudeCode
