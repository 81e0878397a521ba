import GhcpConsole.ClaudeCode.Clone

/-!
# The prepared conversation

The passes over the messages together: `conversation_kept`.
-/

namespace GhcpConsole.ClaudeCode

open ObjectHeap

section Rewriting

variable {ν : Type} [JsInteger ν]

def messagesOf (body : Body ν) : List (Json ν) := (arrayField (body.get "messages")).getD []

theorem messagesOf_preprocess {body : Body ν} (h : hasMessageOutputConfig body = false)
    (hmessages : (arrayField (body.get "messages")).isSome = true) :
    messagesOf (preprocessClaudeCodeMessagesBody body)
      = preparedMessages (modelProfile body).acceptsMidConversationSystem (messagesOf body) := by
  obtain ⟨messages, hsome⟩ := Option.isSome_iff_exists.mp hmessages
  rw [messagesOf, messages_preprocess h, messagesOf, hsome]
  rfl

theorem messagesOf_none {body : Body ν} (h : hasMessageOutputConfig body = false)
    (hmessages : (arrayField (body.get "messages")).isSome = false) :
    messagesOf (preprocessClaudeCodeMessagesBody body) = [] ∧ messagesOf body = [] := by
  rw [Option.isSome_eq_false_iff, Option.isNone_iff_eq_none] at hmessages
  rw [messagesOf, messages_preprocess h, messagesOf, hmessages]
  exact ⟨rfl, rfl⟩

/-- The calls of tools and their results stay unless a system message has one for its content; a text of a
message, but for its dates, the marker of a loaded tool and the white space around it, occurs in the result
unless it stands in the content of a system message or of a tool result that is one block without an array;
the last message is not from the assistant; a system message that stays stands where the model accepts it;
and the body itself is as it was. -/
theorem conversation_kept (body : Body ν) (hplain : isPlainMembers body = true)
    (h : hasMessageOutputConfig body = false) :
    let before := messagesOf body
    let after := messagesOf (preprocessClaudeCodeMessagesBody body)
    ((∀ message ∈ before, SystemListed message) → after.flatMap toolIds = before.flatMap toolIds)
      ∧ (∀ message ∈ before, SystemListed message → ∀ text ∈ listedTexts (stripDate false message),
          trim text.toList ≠ [] → trim text.toList ≠ toolLoadedMarker.toList →
          ∃ result ∈ after, Occurs (trim text.toList) result)
      ∧ after.getLast?.any (isRole "assistant") = false
      ∧ Placed (modelProfile body).acceptsMidConversationSystem after
      ∧ ∀ (heap : Heap ν) (root : Value ν), Reads heap root (.obj body) →
          ∃ fuel heap' clone, cloneJson fuel heap root = some (heap', clone)
            ∧ Reads heap' clone (.obj body)
            ∧ ∀ state, Relation.ReflTransGen Step (heap', [clone]) state →
                Reads state.1 root (.obj body) := by
  intro before after
  have hclone : ∀ (heap : Heap ν) (root : Value ν), Reads heap root (.obj body) →
      ∃ fuel heap' clone, cloneJson fuel heap root = some (heap', clone) ∧ Reads heap' clone (.obj body)
        ∧ ∀ state, Relation.ReflTransGen Step (heap', [clone]) state →
            Reads state.1 root (.obj body) := fun heap root hreads =>
    cloneJson_apart hplain hreads
  cases hmessages : (arrayField (body.get "messages")).isSome with
  | true =>
      have hafter : after = preparedMessages (modelProfile body).acceptsMidConversationSystem before :=
        messagesOf_preprocess h hmessages
      rw [hafter]
      exact ⟨toolIds_preparedMessages _,
        fun message hmem hsystem text htext hblank hmarker =>
          occurs_preparedMessages _ hmem hsystem htext hblank hmarker,
        last_preparedMessages _ _, placed_preparedMessages _ _, hclone⟩
  | false =>
      obtain ⟨hafter, hbefore⟩ := messagesOf_none h hmessages
      have hafter : after = [] := hafter
      have hbefore : before = [] := hbefore
      rw [hafter, hbefore]
      refine ⟨fun _ => rfl, nofun, rfl, fun front message rest heq => ?_, hclone⟩
      cases front <;> cases heq

end Rewriting

/-! ## Conversations -/

def userMessage (content : List (Json Int)) : Json Int :=
  .obj [("role", .str "user"), ("content", .arr content)]

def toolResult : Json Int :=
  .obj [("type", .str "tool_result"), ("tool_use_id", .str "call-1"), ("content", .str "done")]

/-- A result with a text beside it, and a system message in the middle. -/
def toolBody : Body Int :=
  [("model", .str "claude-opus-4.8"),
    ("messages", .arr
      [userMessage [toolResult, textBlock " go on "],
        .obj [("role", .str "system"), ("content", .str "be brief")],
        .obj [("role", .str "assistant"), ("content", .str "yes")]])]

theorem conversation_kept_tool :
    (messagesOf (preprocessClaudeCodeMessagesBody toolBody)).flatMap toolIds
        = [("tool_result", some "call-1")]
      ∧ (∃ result ∈ messagesOf (preprocessClaudeCodeMessagesBody toolBody),
          Occurs "go on".toList result)
      ∧ Placed true (messagesOf (preprocessClaudeCodeMessagesBody toolBody)) := by
  obtain ⟨htools, htexts, -, hplaced, -⟩ :=
    conversation_kept toolBody (by decide +kernel) (by decide +kernel)
  refine ⟨(htools (by decide +kernel)).trans (by decide +kernel), ?_, ?_⟩
  · have hmem : userMessage [toolResult, textBlock " go on "] ∈ messagesOf toolBody :=
      List.mem_cons_self
    have htext := htexts _ hmem (by decide +kernel) " go on " (by decide +kernel) (by decide) (by decide)
    rw [show trim " go on ".toList = "go on".toList by decide] at htext
    exact htext
  · rw [show (modelProfile toolBody).acceptsMidConversationSystem = true by decide +kernel] at hplaced
    exact hplaced

/-- A system message before what is no message. -/
def strayBody : Body Int :=
  [("model", .str "claude-opus-4.8"),
    ("messages", .arr
      [userMessage [textBlock "go on"], .obj [("role", .str "system"), ("content", .str "be brief")],
        .null])]

/-- A system message and a tool result whose contents are not in arrays. -/
def bareBody : Body Int :=
  [("messages", .arr
    [.obj [("role", .str "system"), ("content", toolResult)],
      userMessage [.obj [("type", .str "tool_result"), ("content", textBlock "done")],
        textBlock "go on"]])]

/-- A text that is moved into a tool result loses the white space around it, and what is no object counts
as the end of the messages. One block for the content of a system message or of a tool result is
overwritten. -/
theorem conversation_kept_as_stated :
    (¬ ∀ body : Body Int, hasMessageOutputConfig body = false → ∀ message ∈ messagesOf body,
      ∀ text ∈ shownTexts (stripDate false message), trim text.toList ≠ [] →
      trim text.toList ≠ toolLoadedMarker.toList →
      ∃ result ∈ messagesOf (preprocessClaudeCodeMessagesBody body), Occurs text.toList result)
    ∧ (¬ ∀ body : Body Int, hasMessageOutputConfig body = false → ∀ before message after,
      messagesOf (preprocessClaudeCodeMessagesBody body) = before ++ message :: after →
      isRole "system" message = true → after = [] ∨ after.head?.any (isRole "assistant") = true)
    ∧ (¬ ∀ body : Body Int, hasMessageOutputConfig body = false →
      (messagesOf (preprocessClaudeCodeMessagesBody body)).flatMap toolIds
        = (messagesOf body).flatMap toolIds)
    ∧ ¬ ∀ body : Body Int, hasMessageOutputConfig body = false → ∀ message ∈ messagesOf body,
      ∀ text ∈ shownTexts (stripDate false message), trim text.toList ≠ [] →
      trim text.toList ≠ toolLoadedMarker.toList →
      ∃ result ∈ messagesOf (preprocessClaudeCodeMessagesBody body),
        Occurs (trim text.toList) result := by
  refine ⟨fun h => ?_, fun h => ?_, fun h => ?_, fun h => ?_⟩
  · have hmem : userMessage [toolResult, textBlock " go on "] ∈ messagesOf toolBody :=
      List.mem_cons_self
    have htext := h toolBody (by decide +kernel) _ hmem " go on " (by decide +kernel) (by decide)
      (by decide)
    unfold Occurs at htext
    exact absurd htext (by decide +kernel)
  · have hsplit : ∃ before message after,
        messagesOf (preprocessClaudeCodeMessagesBody strayBody) = before ++ message :: after
          ∧ isRole "system" message = true ∧ after = [.null] := ⟨[_], _, _, rfl, by decide, rfl⟩
    obtain ⟨before, message, after, heq, hsystem, rfl⟩ := hsplit
    rcases h strayBody (by decide +kernel) before message _ heq hsystem with hnil | hassistant
    · cases hnil
    · exact absurd hassistant (by decide)
  · exact absurd (h bareBody (by decide +kernel)) (by decide +kernel)
  · have htext := h bareBody (by decide +kernel) _ (List.mem_cons_of_mem _ List.mem_cons_self) "done"
      (by decide +kernel) (by decide) (by decide)
    unfold Occurs at htext
    exact absurd htext (by decide +kernel)

end GhcpConsole.ClaudeCode
