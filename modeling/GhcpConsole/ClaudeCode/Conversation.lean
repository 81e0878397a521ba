import GhcpConsole.ClaudeCode.Thinking

/-!
# The conversation under the passes

Each pass is followed message by message: which blocks it keeps (`toolIds`), and, for the loop that
rewrites system messages, where the ones that stay are (`placed_rewriteFrom`).
-/

namespace GhcpConsole.ClaudeCode

section Conversation

variable {ν : Type}

/-! ## The passes over one message -/

/-- What becomes of one message before the system messages are rewritten. -/
def prepareMessage (message : Json ν) : Option (Json ν) :=
  stripToolLoaded (mergeToolResult (filterThinkingBlocks (stripDate false (stripScope false message))))

/-- What becomes of the messages. -/
def preparedMessages (accepts : Bool) (messages : List (Json ν)) : List (Json ν) :=
  fixTrailing (rewriteFrom accepts none (messages.filterMap prepareMessage))

theorem messages_preprocess [JsInteger ν] {body : Body ν} (h : hasMessageOutputConfig body = false) :
    arrayField ((preprocessClaudeCodeMessagesBody body).get "messages")
      = (arrayField (body.get "messages")).map
          (preparedMessages (modelProfile body).acceptsMidConversationSystem) := by
  rw [preprocess_eq h, messages_prepareMessages, get_applyModelProfile (by decide), messages_stripped,
    Option.map_map]
  refine congrArg (Option.map · _) (funext fun messages => ?_)
  show fixTrailing (rewriteFrom _ none ((((messages.map _).map _).map _).map _ |>.filterMap _)) = _
  rw [List.filterMap_map, List.filterMap_map, List.filterMap_map, List.filterMap_map]
  rfl

/-! ## Tools -/

/-- A call of a tool or its result, with the id of the call. -/
def toolId (block : Json ν) : Option (String × Option String) :=
  if isType "tool_use" block then some ("tool_use", textOf "id" block)
  else if isType "tool_result" block then some ("tool_result", textOf "tool_use_id" block)
  else none

def contentField (message : Json ν) : Option (Json ν) :=
  (recordField (some message)).bind (·.get "content")

/-- The blocks of a content; one block may stand there without an array. -/
def blocksOf : Option (Json ν) → List (Json ν)
  | some (.arr content) => content
  | some (.obj block) => [.obj block]
  | _ => []

def contentOf (message : Json ν) : List (Json ν) := blocksOf (contentField message)

/-- The content is one block without an array. -/
def isBare (message : Json ν) : Bool := (recordField (contentField message)).isSome

/-- The content of a system message is no bare block: that one would be overwritten. -/
def SystemListed (message : Json ν) : Prop := isRole "system" message = true → isBare message = false

instance (message : Json ν) : Decidable (SystemListed message) := inferInstanceAs (Decidable (_ → _))

def toolIds (message : Json ν) : List (String × Option String) := (contentOf message).filterMap toolId

theorem toolId_congr {block block' : Json ν}
    (h : ∀ name, name ≠ "text" → name ≠ "content" → textOf name block' = textOf name block) :
    toolId block' = toolId block := by
  rw [toolId, toolId, isType, isType, isType, isType, h "type" (by decide) (by decide),
    h "id" (by decide) (by decide), h "tool_use_id" (by decide) (by decide)]

theorem toolId_of_isType {block : Json ν} {type : String} (h : isType type block = true)
    (huse : type ≠ "tool_use") (hresult : type ≠ "tool_result") : toolId block = none := by
  have htype : textOf "type" block = some type := of_decide_eq_true h
  rw [toolId, isType, isType, htype, if_neg (by simpa using huse), if_neg (by simpa using hresult)]

theorem isType_of_blockText {block : Json ν} (h : (blockText block).isSome = true) :
    isType "text" block = true := by
  unfold blockText at h
  split at h
  · assumption
  · cases h

/-- A filter that takes away nothing that counts. -/
theorem filterMap_filter_of {α β : Type} {f : α → Option β} {p : α → Bool} {l : List α}
    (h : ∀ x ∈ l, p x = false → f x = none) : (l.filter p).filterMap f = l.filterMap f := by
  induction l with
  | nil => rfl
  | cons x l ih =>
      have hrest := ih fun y hy => h y (List.mem_cons_of_mem _ hy)
      cases hp : p x with
      | true => rw [List.filter_cons_of_pos hp, List.filterMap_cons, List.filterMap_cons, hrest]
      | false =>
          rw [List.filter_cons_of_neg (by simp [hp]), List.filterMap_cons_none (h x List.mem_cons_self hp),
            hrest]

theorem contentField_withBlocks (object : OrderedMap String (Json ν)) (content : List (Json ν)) :
    contentField (withBlocks object content) = some (.arr content) := OrderedMap.get_set_self

theorem isBare_withBlocks (object : OrderedMap String (Json ν)) (content : List (Json ν)) :
    isBare (withBlocks object content) = false := by
  rw [isBare, contentField_withBlocks]
  rfl

theorem contentOf_withBlocks (object : OrderedMap String (Json ν)) (content : List (Json ν)) :
    contentOf (withBlocks object content) = content := by
  rw [contentOf, contentField_withBlocks, blocksOf]

theorem contentOf_blocks? {message : Json ν} {object : OrderedMap String (Json ν)}
    {content : List (Json ν)} (h : blocks? message = some (object, content)) :
    contentOf message = content := by
  obtain ⟨rfl, harray⟩ := recordField_blocks? h
  show blocksOf (object.get "content") = content
  obtain ⟨value, hget, hvalue⟩ := Option.bind_eq_some_iff.mp harray
  cases value with
  | arr items =>
      rw [hget]
      exact Option.some.inj hvalue
  | null | bool | num | str | obj => cases hvalue

theorem textOf_stripScope (name : String) (value : Json ν) :
    textOf name (stripScope false value) = textOf name value := by
  rw [textOf, ← Option.map_some, recordField_stripScope, textOf]
  cases recordField (some value) with
  | none => rfl
  | some members =>
      rw [Option.map_some, Option.bind_some, Option.bind_some, get_stripScopeMembers,
        stringField_stripScope]

theorem textOf_stripDate {name : String} (hname : name ≠ "text") (value : Json ν) :
    textOf name (stripDate false value) = textOf name value :=
  stringMember_stripDate (some value) hname

theorem contentField_stripScope (message : Json ν) :
    contentField (stripScope false message) = (contentField message).map (stripScope false) := by
  rw [contentField, ← Option.map_some, recordField_stripScope, contentField]
  cases recordField (some message) with
  | none => rfl
  | some object => exact get_stripScopeMembers object "content"

theorem contentField_stripDate (message : Json ν) :
    contentField (stripDate false message) = (contentField message).map (stripDate false) := by
  rw [contentField, ← Option.map_some, recordField_stripDate, contentField]
  cases recordField (some message) with
  | none => rfl
  | some object => exact get_stripDateMembers object "content"

theorem contentOf_stripScope (message : Json ν) :
    contentOf (stripScope false message) = (contentOf message).map (stripScope false) := by
  rw [contentOf, contentField_stripScope, contentOf]
  cases contentField message with
  | none => rfl
  | some value =>
      cases value with
      | arr items => exact stripScopeItems_eq items
      | null | bool | num | str | obj => rfl

theorem contentOf_stripDate (message : Json ν) :
    contentOf (stripDate false message) = (contentOf message).map (stripDate false) := by
  rw [contentOf, contentField_stripDate, contentOf]
  cases contentField message with
  | none => rfl
  | some value =>
      cases value with
      | arr items => exact stripDateItems_eq items
      | null | bool | num | str | obj => rfl

theorem isBare_stripScope (message : Json ν) : isBare (stripScope false message) = isBare message := by
  rw [isBare, contentField_stripScope, recordField_stripScope, Option.isSome_map, isBare]

theorem isBare_stripDate (message : Json ν) : isBare (stripDate false message) = isBare message := by
  rw [isBare, contentField_stripDate, recordField_stripDate, Option.isSome_map, isBare]

theorem toolIds_stripScope (message : Json ν) : toolIds (stripScope false message) = toolIds message := by
  rw [toolIds, contentOf_stripScope, List.filterMap_map]
  exact List.filterMap_congr fun block _ => toolId_congr fun name _ _ => textOf_stripScope name block

theorem toolIds_stripDate (message : Json ν) : toolIds (stripDate false message) = toolIds message := by
  rw [toolIds, contentOf_stripDate, List.filterMap_map]
  exact List.filterMap_congr fun block _ => toolId_congr fun name hname _ => textOf_stripDate hname block

theorem toolIds_filterThinkingBlocks (message : Json ν) :
    toolIds (filterThinkingBlocks message) = toolIds message := by
  unfold filterThinkingBlocks
  split
  · rfl
  · rename_i object content hblocks
    split
    · rw [toolIds, contentOf_withBlocks, toolIds, contentOf_blocks? hblocks]
      refine filterMap_filter_of fun block _ hinvalid => ?_
      rw [Bool.not_eq_false', isInvalidThinkingBlock, Bool.and_eq_true] at hinvalid
      exact toolId_of_isType hinvalid.1 (by decide) (by decide)
    · rfl

theorem toolId_appendText {toolResult : OrderedMap String (Json ν)} (text : String) :
    toolId (.obj (appendTextToToolResult toolResult text)) = toolId (.obj toolResult) := by
  refine toolId_congr fun name _ hcontent => ?_
  show stringField ((appendTextToToolResult toolResult text).get name) = stringField (toolResult.get name)
  unfold appendTextToToolResult
  split <;> rw [OrderedMap.get_set_ne hcontent]

theorem findLastIndex_spec {items : List (Json ν)} {predicate : Json ν → Bool} {i : Nat}
    (h : findLastIndex items predicate = some i) : (items[i]?).any predicate = true :=
  (List.mem_filter.mp (List.mem_of_getLast? h)).2

/-- What the merge does: nothing, or the texts are moved into a tool result of the message. -/
inductive Merged (message : Json ν) : Json ν → Prop
  | same : Merged message message
  | moved (object : OrderedMap String (Json ν)) (content : List (Json ν)) (i : Nat)
      (target : OrderedMap String (Json ν)) (hblocks : blocks? message = some (object, content))
      (htarget : (content.filter fun block => (blockText block).isNone)[i]? = some (.obj target))
      (hresult : isType "tool_result" (.obj target) = true) :
      Merged message (withBlocks object
        ((content.filter fun block => (blockText block).isNone).set i
          (.obj (appendTextToToolResult target (joinParts (textParts content))))))

theorem mergeToolResult_merged (message : Json ν) : Merged message (mergeToolResult message) := by
  unfold mergeToolResult
  split
  · exact .same
  · rename_i object content hblocks
    split
    · exact .same
    · dsimp only
      split
      · exact .same
      · split
        · exact .same
        · rename_i i hi
          split
          · exact .same
          · rename_i target htarget
            split
            · exact .same
            · cases hitem : (content.filter fun block => (blockText block).isNone)[i]? with
              | none =>
                  rw [hitem] at htarget
                  cases htarget
              | some item =>
                  rw [hitem] at htarget
                  have hresult := findLastIndex_spec hi
                  rw [hitem] at hresult
                  cases item with
                  | obj members =>
                      cases htarget
                      exact .moved object content i _ hblocks hitem hresult
                  | null | bool | num | str | arr => cases htarget

theorem filterMap_set_of {α β : Type} {f : α → Option β} {l : List α} {i : Nat} {x y : α}
    (hx : l[i]? = some x) (hy : f y = f x) : (l.set i y).filterMap f = l.filterMap f := by
  induction l generalizing i with
  | nil => rfl
  | cons z l ih =>
      cases i with
      | zero =>
          obtain rfl : z = x := Option.some.inj hx
          rw [List.set_cons_zero, List.filterMap_cons, List.filterMap_cons, hy]
      | succ i => rw [List.set_cons_succ, List.filterMap_cons, List.filterMap_cons, ih hx]

theorem toolIds_mergeToolResult (message : Json ν) :
    toolIds (mergeToolResult message) = toolIds message := by
  have hmerged := mergeToolResult_merged message
  generalize mergeToolResult message = merged at hmerged ⊢
  cases hmerged with
  | same => rfl
  | moved object content i target hblocks htarget hresult =>
      rw [toolIds, contentOf_withBlocks, filterMap_set_of htarget (toolId_appendText _), toolIds,
        contentOf_blocks? hblocks]
      refine filterMap_filter_of fun block _ htext => ?_
      exact toolId_of_isType (isType_of_blockText (by simpa using htext)) (by decide) (by decide)

theorem toolIds_stripToolLoaded (message : Json ν) :
    ((stripToolLoaded message).map toolIds).getD [] = toolIds message := by
  unfold stripToolLoaded
  split
  · rfl
  · rename_i object content hblocks
    have hkept : (content.filter fun block => !isToolLoaded block).filterMap toolId = toolIds message := by
      rw [toolIds, contentOf_blocks? hblocks]
      refine filterMap_filter_of fun block _ hloaded => ?_
      rw [Bool.not_eq_false', isToolLoaded] at hloaded
      refine toolId_of_isType (isType_of_blockText ?_) (by decide) (by decide)
      cases htext : blockText block with
      | none =>
          rw [htext] at hloaded
          cases hloaded
      | some text => rfl
    dsimp only
    split
    · rename_i hempty
      rw [List.isEmpty_iff.mp hempty] at hkept
      exact hkept
    · rw [Option.map_some, Option.getD_some, toolIds, contentOf_withBlocks, hkept]

theorem toolIds_prepareMessage (message : Json ν) :
    ((prepareMessage message).map toolIds).getD [] = toolIds message := by
  rw [prepareMessage, toolIds_stripToolLoaded, toolIds_mergeToolResult, toolIds_filterThinkingBlocks,
    toolIds_stripDate, toolIds_stripScope]

/-! ## System messages -/

theorem SystemListed.of_withBlocks (object : OrderedMap String (Json ν)) (content : List (Json ν)) :
    SystemListed (withBlocks object content) := fun _ => isBare_withBlocks object content

/-- The passes before give a message an array of blocks or leave its content. -/
theorem SystemListed.prepareMessage {message prepared : Json ν} (h : SystemListed message)
    (hprepared : prepareMessage message = some prepared) : SystemListed prepared := by
  have hstripped : SystemListed (stripDate false (stripScope false message)) := by
    intro hsystem
    rw [isRole, textOf_stripDate (by decide), textOf_stripScope] at hsystem
    rw [isBare_stripDate, isBare_stripScope]
    exact h hsystem
  have hfiltered : SystemListed (filterThinkingBlocks (stripDate false (stripScope false message))) := by
    unfold filterThinkingBlocks
    split
    · exact hstripped
    · split
      · exact .of_withBlocks _ _
      · exact hstripped
  rw [ClaudeCode.prepareMessage] at hprepared
  generalize filterThinkingBlocks _ = filtered at hfiltered hprepared
  have hmerged : SystemListed (mergeToolResult filtered) := by
    have hcases := mergeToolResult_merged filtered
    generalize mergeToolResult filtered = merged at hcases ⊢
    cases hcases with
    | same => exact hfiltered
    | moved => exact .of_withBlocks _ _
  unfold stripToolLoaded at hprepared
  split at hprepared
  · exact Option.some.inj hprepared ▸ hmerged
  · dsimp only at hprepared
    split at hprepared
    · cases hprepared
    · exact Option.some.inj hprepared ▸ .of_withBlocks _ _

theorem contentOf_of_get {object : OrderedMap String (Json ν)} {content : List (Json ν)}
    (h : arrayField (object.get "content") = some content) : contentOf (.obj object) = content :=
  contentOf_blocks? (congrArg (Option.map fun content => (object, content)) h)

theorem contentOf_of_none {message : Json ν} (h : arrayField (contentField message) = none)
    (hbare : isBare message = false) : contentOf message = [] := by
  unfold isBare at hbare
  unfold contentOf
  cases hcontent : contentField message with
  | none => rfl
  | some content =>
      rw [hcontent] at h hbare
      cases content with
      | arr items => cases h
      | obj block => cases hbare
      | null | bool | num | str => rfl

theorem toolId_textBlock (text : String) : toolId (textBlock text : Json ν) = none :=
  toolId_of_isType (rfl : isType "text" (textBlock text : Json ν) = true) (by decide) (by decide)

theorem toolIds_markFirstText {blocks marked : List (Json ν)} (h : markFirstText blocks = some marked) :
    marked.filterMap toolId = blocks.filterMap toolId := by
  induction blocks generalizing marked with
  | nil => cases h
  | cons block rest ih =>
      unfold markFirstText at h
      split at h
      · rename_i object text hobject htext
        cases block with
        | obj members =>
            cases hobject
            rw [← Option.some.inj h, List.filterMap_cons, List.filterMap_cons]
            have hsame : toolId (.obj (object.set "text" (.str (injectedSystemMarker ++ text))))
                = toolId (.obj object) := by
              refine toolId_congr fun name hname _ => ?_
              show stringField ((object.set "text" _).get name) = stringField (object.get name)
              rw [OrderedMap.get_set_ne hname]
            rw [hsame]
        | null | bool | num | str | arr => cases hobject
      · obtain ⟨tail, htail, rfl⟩ := Option.map_eq_some_iff.mp h
        rw [List.filterMap_cons, List.filterMap_cons, ih htail]

theorem toolIds_prefixMessageContent {object : OrderedMap String (Json ν)}
    (hbare : isBare (.obj object) = false) :
    toolIds (.obj (prefixMessageContent object)) = toolIds (.obj object) := by
  unfold prefixMessageContent
  split
  · rename_i text htext
    have hbefore : contentOf (.obj object) = [] := congrArg blocksOf htext
    have hafter : contentOf (.obj (object.set "content" (.str (injectedSystemMarker ++ text)))) = [] :=
      congrArg blocksOf OrderedMap.get_set_self
    rw [toolIds, toolIds, hbefore, hafter]
  · rename_i content hcontent
    have hbefore : arrayField (object.get "content") = some content := by
      rw [hcontent]
      rfl
    show (contentOf (withBlocks object _)).filterMap toolId = _
    rw [contentOf_withBlocks, toolIds, contentOf_of_get hbefore]
    cases hmarked : markFirstText content with
    | none => rw [Option.getD_none, List.filterMap_cons_none (toolId_textBlock _)]
    | some marked => rw [Option.getD_some, toolIds_markFirstText hmarked]
  · rename_i hstring harray
    have hnone : arrayField (contentField (.obj object)) = none := by
      show arrayField (object.get "content") = none
      cases hcontent : object.get "content" with
      | none => rfl
      | some content =>
          cases content with
          | arr items => exact absurd hcontent (harray items)
          | null | bool | num | str | obj => rfl
    show (contentOf (withBlocks object _)).filterMap toolId = _
    rw [contentOf_withBlocks, toolIds, contentOf_of_none hnone hbare,
      List.filterMap_cons_none (toolId_textBlock _)]

/-- A rewritten system message. -/
def injected (object : OrderedMap String (Json ν)) : Json ν :=
  .obj (prefixMessageContent (object.set "role" (.str "user")))

theorem isRole_injected (object : OrderedMap String (Json ν)) (role : String) :
    isRole role (injected object) = true ↔ role = "user" := by
  have hrole : textOf "role" (injected object) = some "user" := by
    show stringField ((prefixMessageContent (object.set "role" (.str "user"))).get "role") = _
    unfold prefixMessageContent
    split <;> rw [OrderedMap.get_set_ne (by decide), OrderedMap.get_set_self] <;> rfl
  rw [isRole, hrole, decide_eq_true_eq, Option.some.injEq]
  exact eq_comm

/-- What the loop makes of a message. -/
inductive Rewritten (accepts : Bool) (previous next : Option (Json ν)) (message : Json ν) :
    Json ν → Prop
  | other (h : isRole "system" message = false) : Rewritten accepts previous next message message
  | legal (haccepts : accepts = true) (hlegal : isLegalSystemPlacement previous next = true) :
      Rewritten accepts previous next message message
  | injected (object : OrderedMap String (Json ν)) (hobject : message = .obj object)
      (h : isRole "system" message = true) :
      Rewritten accepts previous next message (injected object)

theorem rewriteSystem_rewritten (accepts : Bool) (previous next : Option (Json ν)) (message : Json ν) :
    Rewritten accepts previous next message (rewriteSystem accepts previous next message) := by
  unfold rewriteSystem
  split
  · rename_i hnone
    refine .other (decide_eq_false ?_)
    rw [textOf, hnone]
    exact nofun
  · rename_i object hobject
    split
    · rename_i hrole
      exact .other (by simpa using hrole)
    · rename_i hrole
      split
      · rename_i hlegal
        rw [Bool.and_eq_true] at hlegal
        exact .legal hlegal.1 hlegal.2
      · cases message with
        | obj members =>
            cases hobject
            exact .injected _ rfl (by simpa using hrole)
        | null | bool | num | str | arr => cases hobject

theorem contentField_set_role (object : OrderedMap String (Json ν)) (role : Json ν) :
    contentField (.obj (object.set "role" role)) = contentField (.obj object) :=
  OrderedMap.get_set_ne (by decide)

theorem toolIds_rewriteSystem {accepts : Bool} {previous next : Option (Json ν)} {message : Json ν}
    (hlisted : SystemListed message) :
    toolIds (rewriteSystem accepts previous next message) = toolIds message := by
  have hrewritten := rewriteSystem_rewritten accepts previous next message
  generalize rewriteSystem accepts previous next message = result at hrewritten ⊢
  cases hrewritten with
  | other => rfl
  | legal => rfl
  | injected object hobject hsystem =>
      have hbare : isBare (.obj (object.set "role" (.str "user"))) = false := by
        rw [isBare, contentField_set_role, ← hobject]
        exact hlisted hsystem
      rw [ClaudeCode.injected, toolIds_prefixMessageContent hbare, toolIds, contentOf,
        contentField_set_role, hobject, toolIds, contentOf]

theorem toolIds_rewriteFrom (accepts : Bool) (previous : Option (Json ν)) {messages : List (Json ν)}
    (hlisted : ∀ message ∈ messages, SystemListed message) :
    (rewriteFrom accepts previous messages).flatMap toolIds = messages.flatMap toolIds := by
  induction messages generalizing previous with
  | nil => rfl
  | cons message rest ih =>
      obtain ⟨hmessage, hrest⟩ := List.forall_mem_cons.mp hlisted
      show List.flatMap toolIds (rewriteSystem accepts previous rest.head? message :: _) = _
      rw [List.flatMap_cons, List.flatMap_cons, toolIds_rewriteSystem hmessage, ih _ hrest]

theorem toolIds_fixTrailing (messages : List (Json ν)) :
    (fixTrailing messages).flatMap toolIds = messages.flatMap toolIds := by
  unfold fixTrailing
  split
  · rw [List.flatMap_append]
    exact List.append_nil _
  · rfl

theorem flatMap_filterMap_of {α β : Type} {f : α → Option α} {g : α → List β}
    (h : ∀ x, ((f x).map g).getD [] = g x) (l : List α) :
    (l.filterMap f).flatMap g = l.flatMap g := by
  induction l with
  | nil => rfl
  | cons x l ih =>
      have hx := h x
      cases hf : f x with
      | none =>
          rw [hf] at hx
          rw [List.filterMap_cons_none hf, List.flatMap_cons, ← hx, ih]
          rfl
      | some y =>
          rw [hf] at hx
          rw [List.filterMap_cons_some hf, List.flatMap_cons, List.flatMap_cons, ← hx, ih]
          rfl

theorem systemListed_prepared {messages : List (Json ν)} (h : ∀ message ∈ messages, SystemListed message) :
    ∀ prepared ∈ messages.filterMap prepareMessage, SystemListed prepared := by
  intro prepared hmem
  obtain ⟨message, hmessage, hprepared⟩ := List.mem_filterMap.mp hmem
  exact (h message hmessage).prepareMessage hprepared

/-- The calls of tools and their results stay, in their order. -/
theorem toolIds_preparedMessages (accepts : Bool) {messages : List (Json ν)}
    (hlisted : ∀ message ∈ messages, SystemListed message) :
    (preparedMessages accepts messages).flatMap toolIds = messages.flatMap toolIds := by
  rw [preparedMessages, toolIds_fixTrailing, toolIds_rewriteFrom _ _ (systemListed_prepared hlisted),
    flatMap_filterMap_of toolIds_prepareMessage]

/-! ## Where system messages are -/

/-- What may follow a system message: an assistant message, the end, or what is no message at all. -/
def mayFollow (next : Option (Json ν)) : Bool :=
  (recordField next).isNone || next.any (isRole "assistant")

/-- A system message that stays has a user message before it. -/
def Placed (accepts : Bool) (messages : List (Json ν)) : Prop :=
  ∀ before message after, messages = before ++ message :: after → isRole "system" message = true →
    accepts = true ∧ before.getLast?.any (isRole "user") = true ∧ mayFollow after.head? = true

theorem isRole_unique {role role' : String} {message : Json ν} (h : isRole role message = true)
    (hne : role' ≠ role) : isRole role' message = false := by
  have hrole : textOf "role" message = some role := of_decide_eq_true h
  rw [isRole, hrole]
  exact decide_eq_false fun heq => hne (Option.some.inj heq).symm

theorem rewriteSystem_of_not_system {accepts : Bool} {previous next : Option (Json ν)} {message : Json ν}
    (h : isRole "system" message = false) : rewriteSystem accepts previous next message = message := by
  have hrewritten := rewriteSystem_rewritten accepts previous next message
  generalize rewriteSystem accepts previous next message = result at hrewritten ⊢
  cases hrewritten with
  | other => rfl
  | legal => rfl
  | injected object hobject hsystem =>
      rw [h] at hsystem
      cases hsystem

/-- What may follow is no system message, so the loop leaves it there. -/
theorem mayFollow_rewriteFrom {accepts : Bool} {previous : Option (Json ν)} {rest : List (Json ν)}
    (h : mayFollow rest.head? = true) : mayFollow (rewriteFrom accepts previous rest).head? = true := by
  cases rest with
  | nil => exact h
  | cons next rest =>
      have hsystem : isRole "system" next = false := by
        rcases Bool.or_eq_true _ _ ▸ h with hnone | hassistant
        · refine decide_eq_false ?_
          rw [textOf, show recordField (some next) = none from Option.isNone_iff_eq_none.mp hnone]
          exact nofun
        · exact isRole_unique hassistant (by decide)
      show mayFollow (some (rewriteSystem accepts previous rest.head? next)) = true
      rw [rewriteSystem_of_not_system hsystem]
      exact h

theorem placed_rewriteFrom (accepts : Bool) (previous : Option (Json ν)) (messages : List (Json ν)) :
    ∀ before message after, rewriteFrom accepts previous messages = before ++ message :: after →
      isRole "system" message = true →
      accepts = true ∧ (before.getLast?.or previous).any (isRole "user") = true
        ∧ mayFollow after.head? = true := by
  induction messages generalizing previous with
  | nil =>
      intro before message after heq
      cases before <;> cases heq
  | cons first rest ih =>
      intro before message after heq hsystem
      have heq : rewriteSystem accepts previous rest.head? first
          :: rewriteFrom accepts (some (rewriteSystem accepts previous rest.head? first)) rest
          = before ++ message :: after := heq
      have hrewritten := rewriteSystem_rewritten accepts previous rest.head? first
      generalize rewriteSystem accepts previous rest.head? first = result at hrewritten heq
      cases before with
      | nil =>
          obtain ⟨rfl, rfl⟩ := List.cons.inj heq
          cases hrewritten with
          | other h =>
              rw [h] at hsystem
              cases hsystem
          | legal haccepts hlegal =>
              rw [isLegalSystemPlacement, Bool.and_eq_true] at hlegal
              exact ⟨haccepts, hlegal.1, mayFollow_rewriteFrom hlegal.2⟩
          | injected object hobject => exact absurd ((isRole_injected object _).mp hsystem) (by decide)
      | cons head before =>
          obtain ⟨rfl, hrest⟩ := List.cons.inj heq
          obtain ⟨haccepts, hprevious, hnext⟩ := ih (some result) before message after hrest hsystem
          refine ⟨haccepts, ?_, hnext⟩
          rw [List.getLast?_cons]
          cases hlast : before.getLast? with
          | none =>
              rw [hlast] at hprevious
              exact hprevious
          | some last =>
              rw [hlast] at hprevious
              exact hprevious

theorem isRole_continueMessage (role : String) :
    isRole role (continueMessage : Json ν) = true ↔ role = "user" := by
  rw [isRole, show textOf "role" (continueMessage : Json ν) = some "user" from rfl, decide_eq_true_eq,
    Option.some.injEq]
  exact eq_comm

/-- The prompt to continue stands behind an assistant message, not behind a system message. -/
theorem placed_preparedMessages (accepts : Bool) (messages : List (Json ν)) :
    Placed accepts (preparedMessages accepts messages) := by
  rw [preparedMessages]
  have hplaced := placed_rewriteFrom accepts none (messages.filterMap prepareMessage)
  generalize rewriteFrom accepts none (messages.filterMap prepareMessage) = rewritten at hplaced
  intro before message after heq hsystem
  unfold fixTrailing at heq
  split at heq
  · rename_i hlast
    rcases List.eq_nil_or_concat after with rfl | ⟨front, last, rfl⟩
    · have hmessage : continueMessage = message :=
        (List.append_inj' heq rfl).2 |> List.cons.inj |>.1
      rw [← hmessage, isRole_continueMessage] at hsystem
      exact absurd hsystem (by decide)
    · rw [List.concat_eq_append, ← List.cons_append, ← List.append_assoc] at heq
      have hfront : rewritten = before ++ message :: front := (List.append_inj' heq rfl).1
      obtain ⟨haccepts, hprevious, hnext⟩ := hplaced before message front hfront hsystem
      rw [Option.or_none] at hprevious
      refine ⟨haccepts, hprevious, ?_⟩
      cases front with
      | nil =>
          rw [hfront, List.getLast?_append, List.getLast?_singleton, Option.some_or, Option.any_some] at hlast
          rw [isRole_unique hlast (by decide)] at hsystem
          cases hsystem
      | cons next front => exact hnext
  · obtain ⟨haccepts, hprevious, hnext⟩ := hplaced before message after heq hsystem
    rw [Option.or_none] at hprevious
    exact ⟨haccepts, hprevious, hnext⟩

theorem last_preparedMessages (accepts : Bool) (messages : List (Json ν)) :
    (preparedMessages accepts messages).getLast?.any (isRole "assistant") = false := by
  rw [preparedMessages]
  unfold fixTrailing
  split
  · rw [List.getLast?_append, List.getLast?_singleton, Option.some_or]
    rfl
  · rename_i hlast
    exact Bool.eq_false_iff.mpr hlast

end Conversation

end GhcpConsole.ClaudeCode
