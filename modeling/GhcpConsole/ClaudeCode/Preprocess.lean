import GhcpConsole.ClaudeCode.CurrentDate
import GhcpConsole.ClaudeCode.Profiles
import GhcpConsole.Lib.Json

/-!
# Preparing a message request

`preprocessClaudeCodeMessagesBody` works in place on a clone of the body. Here a pass returns what it
makes of the body; a value that a pass reaches by two paths is set at its place in the body. This is what
the passes do where `isPlain` holds: a member `__proto__` of the body is not a member of the clone but its
prototype, which some passes see and others do not.
-/

namespace GhcpConsole.ClaudeCode

abbrev Body (ν : Type) : Type := OrderedMap String (Json ν)

def injectedSystemMarker : String := "[Claude Code injected]\n"
def toolLoadedMarker : String := "Tool loaded."
def automaticContinuePrompt : String := "Please continue."

section Fields

variable {ν : Type} [JsInteger ν]

def recordField (value : Option (Json ν)) : Option (OrderedMap String (Json ν)) := value.bind Json.members?

def stringField (value : Option (Json ν)) : Option String := value.bind Json.string?

def positiveInteger : Option (Json ν) → Option Nat
  | some (.num value) => JsInteger.positiveInteger value
  | _ => none

def arrayField (value : Option (Json ν)) : Option (List (Json ν)) := value.bind Json.items?

/-- `recordField(value)?.[name]`, where it is a text. -/
def textOf (name : String) (value : Json ν) : Option String :=
  stringField ((recordField (some value)).bind (·.get name))

/-- `recordField(block)?.type === type`. -/
def isType (type : String) (block : Json ν) : Bool := textOf "type" block = some type

/-- `recordField(message)?.role === role`. -/
def isRole (role : String) (message : Json ν) : Bool := textOf "role" message = some role

def textBlock (text : String) : Json ν := .obj [("type", .str "text"), ("text", .str text)]

/-- The text of a block of type `text`. -/
def blockText (block : Json ν) : Option String :=
  if isType "text" block then textOf "text" block else none

end Fields

/-! ## The whole body -/

section Traversals

variable {ν : Type}

mutual

/-- No object in the value has a member `__proto__`. -/
def isPlain : Json ν → Bool
  | .arr items => isPlainItems items
  | .obj members => isPlainMembers members
  | _ => true

def isPlainItems : List (Json ν) → Bool
  | [] => true
  | item :: items => isPlain item && isPlainItems items

def isPlainMembers : List (String × Json ν) → Bool
  | [] => true
  | (key, child) :: members => key ≠ "__proto__" && isPlain child && isPlainMembers members

end

mutual

/-- `stripCacheControlScope`; `dropScope` says that the value is a `cache_control`. -/
def stripScope (dropScope : Bool) : Json ν → Json ν
  | .arr items => .arr (stripScopeItems items)
  | .obj members => .obj (stripScopeMembers dropScope members)
  | value => value

def stripScopeItems : List (Json ν) → List (Json ν)
  | [] => []
  | item :: items => stripScope false item :: stripScopeItems items

def stripScopeMembers (dropScope : Bool) : List (String × Json ν) → List (String × Json ν)
  | [] => []
  | (key, child) :: members =>
      if dropScope && key = "scope" then stripScopeMembers dropScope members
      else (key, stripScope (key = "cache_control") child) :: stripScopeMembers dropScope members

end

def stripCacheControlScope (body : Body ν) : Body ν := stripScopeMembers false body

mutual

/-- `stripVolatileCurrentDate`; `isText` says that the value is a `text`. -/
def stripDate (isText : Bool) : Json ν → Json ν
  | .str value => if isText then .str (stripCurrentDateBlock value) else .str value
  | .arr items => .arr (stripDateItems items)
  | .obj members => .obj (stripDateMembers members)
  | value => value

def stripDateItems : List (Json ν) → List (Json ν)
  | [] => []
  | item :: items => stripDate false item :: stripDateItems items

def stripDateMembers : List (String × Json ν) → List (String × Json ν)
  | [] => []
  | (key, child) :: members => (key, stripDate (key = "text") child) :: stripDateMembers members

end

def stripVolatileCurrentDate (body : Body ν) : Body ν := stripDateMembers body

end Traversals

/-! ## The model profile -/

section Profile

variable {ν : Type} [JsInteger ν]

def outputConfigKey : String := "output_config"

/-- `delete outputConfig.effort`, and the empty `output_config` with it. -/
def deleteEffort (body : Body ν) (outputConfig : OrderedMap String (Json ν)) : Body ν :=
  let outputConfig := outputConfig.erase "effort"
  if outputConfig.isEmpty then body.erase outputConfigKey
  else body.set outputConfigKey (.obj outputConfig)

/-- The lower case of a Latin text: no other character has one of the letters of an effort as its lower
case. -/
def toLowerCase (text : String) : String := String.ofList (text.toList.map Char.toLower)

def acceptsEffort (profile : AnthropicModelProfile) (effort : String) : Bool :=
  profile.acceptedEfforts.any fun accepted => toLowerCase accepted = toLowerCase effort

def applyEffortPolicy (body : Body ν) (profile : AnthropicModelProfile) : Body ν :=
  match recordField (body.get outputConfigKey) with
  | none => body
  | some outputConfig =>
      match stringField (outputConfig.get "effort") with
      | none => body
      | some effort =>
          if effort = "" then body
          else if acceptsEffort profile effort then body
          else deleteEffort body outputConfig

def explicitThinkingBudget (body : Body ν) (thinking : OrderedMap String (Json ν)) : Option Nat :=
  match positiveInteger (body.get "max_tokens"), positiveInteger (thinking.get "budget_tokens") with
  | none, some requested => some requested
  | none, none => some 1024
  | some maxTokens, requested =>
      if maxTokens ≤ 1024 then none
      else some (min (requested.getD 4096) (JsInteger.pred ν maxTokens))

def enabledThinking (budget : Nat) : Json ν :=
  .obj [("type", .str "enabled"), ("budget_tokens", .num (JsInteger.ofInteger budget))]

def adaptiveThinking : Json ν := .obj [("type", .str "adaptive")]

def applyThinkingPolicy (body : Body ν) (profile : AnthropicModelProfile) : Body ν :=
  match recordField (body.get "thinking") with
  | none => body
  | some thinking =>
      match stringField (thinking.get "type") with
      | none => body
      | some thinkingType =>
          if thinkingType = "" ∨ thinkingType = "disabled" then body
          else if profile.thinking = .enabledOnly ∧ thinkingType = "adaptive" then
            match explicitThinkingBudget body thinking with
            | none | some 0 => body.erase "thinking"
            | some budget => body.set "thinking" (enabledThinking budget)
          else if profile.thinking = .adaptiveOnly ∧ thinkingType = "enabled" then
            body.set "thinking" adaptiveThinking
          else body

def stripOutputConfigEffort (body : Body ν) : Body ν :=
  match recordField (body.get outputConfigKey) with
  | none => body
  | some outputConfig =>
      if (outputConfig.get "effort").isSome then deleteEffort body outputConfig else body

/-- The largest budget below `max_tokens`, where that is given. -/
def thinkingCap (ν : Type) [JsInteger ν] (profile : AnthropicModelProfile) : Option Nat → Nat
  | none => profile.maxThinkingBudget
  | some maxTokens => min profile.maxThinkingBudget (max 1 (JsInteger.pred ν maxTokens))

def capThinkingBudget (body : Body ν) (profile : AnthropicModelProfile) : Body ν :=
  match recordField (body.get "thinking") with
  | none => body
  | some thinking =>
      if stringField (thinking.get "type") ≠ some "enabled" then body
      else
        match positiveInteger (thinking.get "budget_tokens") with
        | none => body
        | some budget =>
            let maxTokens := positiveInteger (body.get "max_tokens")
            if maxTokens.any (· ≤ 1) then stripOutputConfigEffort (body.erase "thinking")
            else if thinkingCap ν profile maxTokens < budget then
              body.set "thinking" (.obj
                (thinking.set "budget_tokens"
                  (.num (JsInteger.ofInteger (thinkingCap ν profile maxTokens)))))
            else body

def disableForcedToolChoiceWhenThinking (body : Body ν) : Body ν :=
  match recordField (body.get "thinking") with
  | none => body
  | some thinking =>
      if stringField (thinking.get "type") = some "disabled" then body
      else
        match stringField ((recordField (body.get "tool_choice")).bind (·.get "type")) with
        | some "any" | some "tool" => body.set "tool_choice" (.obj [("type", .str "auto")])
        | _ => body

def applyModelProfile (body : Body ν) (profile : AnthropicModelProfile) : Body ν :=
  let body := applyEffortPolicy body profile
  let body := applyThinkingPolicy body profile
  let body := applyEffortPolicy body profile
  let body := capThinkingBudget body profile
  disableForcedToolChoiceWhenThinking body

end Profile

/-! ## The messages -/

section Messages

variable {ν : Type} [JsInteger ν]

/-- A pass over the messages of the body, where it has any. -/
def onMessages (f : List (Json ν) → List (Json ν)) (body : Body ν) : Body ν :=
  match arrayField (body.get "messages") with
  | none => body
  | some messages => body.set "messages" (.arr (f messages))

/-- The message is an object whose `content` is an array. -/
def blocks? (message : Json ν) : Option (OrderedMap String (Json ν) × List (Json ν)) :=
  (recordField (some message)).bind fun object =>
    (arrayField (object.get "content")).map fun content => (object, content)

def withBlocks (object : OrderedMap String (Json ν)) (content : List (Json ν)) : Json ν :=
  .obj (object.set "content" (.arr content))

def isInvalidThinkingBlock (block : Json ν) : Bool :=
  let invalidSignature := match textOf "signature" block with
    | none => true
    | some signature => signature = "" || signature.toList.contains '@'
  let placeholder :=
    (textOf "thinking" block).any fun thinking => trim thinking.toList = "Thinking...".toList
  isType "thinking" block && (invalidSignature || placeholder)

def filterThinkingBlocks (message : Json ν) : Json ν :=
  match blocks? message with
  | none => message
  | some (object, content) =>
      if isRole "assistant" message then
        withBlocks object (content.filter fun block => !isInvalidThinkingBlock block)
      else message

def filterInvalidAssistantThinkingBlocks : Body ν → Body ν := onMessages (·.map filterThinkingBlocks)

def isKeptTool (tool : Json ν) : Bool :=
  let object := recordField (some tool)
  !(stringField (object.bind (·.get "name")) = some "mcp__ide__executeCode"
    && (match object.bind (·.get "defer_loading") with
      | some (.bool true) => false
      | _ => true))

def sanitizeTools (body : Body ν) : Body ν :=
  match arrayField (body.get "tools") with
  | none => body
  | some tools => body.set "tools" (.arr (tools.filter isKeptTool))

/-- The texts that are moved into a tool result: not the blank ones. -/
def textParts (content : List (Json ν)) : List (List Char) :=
  (content.filterMap fun block => (blockText block).map fun text => trim text.toList).filter (· ≠ [])

def findLastIndex (items : List (Json ν)) (predicate : Json ν → Bool) : Option Nat :=
  ((List.range items.length).filter fun i => (items[i]?).any predicate).getLast?

def toolResultHasReferenceBlock (toolResult : OrderedMap String (Json ν)) : Bool :=
  match arrayField (toolResult.get "content") with
  | none => false
  | some content => content.any (isType "tool_reference")

def appendTextToToolResult (toolResult : OrderedMap String (Json ν)) (text : String) :
    OrderedMap String (Json ν) :=
  match toolResult.get "content" with
  | none => toolResult.set "content" (.str text)
  | some (.str content) =>
      toolResult.set "content"
        (.str (if trim content.toList ≠ [] then content ++ "\n\n" ++ text else text))
  | some (.arr items) => toolResult.set "content" (.arr (items ++ [textBlock text]))
  | some _ => toolResult.set "content" (.arr [textBlock text])

/-- `textParts.join('\n\n')`. -/
def joinParts (parts : List (List Char)) : String := String.ofList (['\n', '\n'].intercalate parts)

def mergeToolResult (message : Json ν) : Json ν :=
  match blocks? message with
  | none => message
  | some (object, content) =>
      if !isRole "user" message || !content.any (isType "tool_result") then message
      else
        let parts := textParts content
        let rebuilt := content.filter fun block => (blockText block).isNone
        if parts = [] then message
        else
          match findLastIndex rebuilt (isType "tool_result") with
          | none => message
          | some targetIndex =>
              match recordField rebuilt[targetIndex]? with
              | none => message
              | some target =>
                  if toolResultHasReferenceBlock target then message
                  else
                    withBlocks object (rebuilt.set targetIndex
                      (.obj (appendTextToToolResult target (joinParts parts))))

def mergeToolResultTextBlocks : Body ν → Body ν := onMessages (·.map mergeToolResult)

def isToolLoaded (block : Json ν) : Bool :=
  (blockText block).any fun text => trim text.toList = toolLoadedMarker.toList

/-- A message that is left without blocks is dropped. -/
def stripToolLoaded (message : Json ν) : Option (Json ν) :=
  match blocks? message with
  | none => some message
  | some (object, content) =>
      let content := content.filter fun block => !isToolLoaded block
      if content.isEmpty then none else some (withBlocks object content)

def stripToolReferenceTurnBoundary : Body ν → Body ν := onMessages (·.filterMap stripToolLoaded)

def isLegalSystemPlacement (previous next : Option (Json ν)) : Bool :=
  previous.any (isRole "user")
    && ((recordField next).isNone || next.any (isRole "assistant"))

/-- The first text block gets the marker. -/
def markFirstText : List (Json ν) → Option (List (Json ν))
  | [] => none
  | block :: rest =>
      match recordField (some block), blockText block with
      | some object, some text =>
          some (.obj (object.set "text" (.str (injectedSystemMarker ++ text))) :: rest)
      | _, _ => (markFirstText rest).map (block :: ·)

def prefixMessageContent (message : OrderedMap String (Json ν)) : OrderedMap String (Json ν) :=
  match message.get "content" with
  | some (.str content) => message.set "content" (.str (injectedSystemMarker ++ content))
  | some (.arr content) =>
      message.set "content"
        (.arr ((markFirstText content).getD (textBlock injectedSystemMarker :: content)))
  | _ => message.set "content" (.arr [textBlock injectedSystemMarker])

/-- A system message becomes a user message, unless it may stay. -/
def rewriteSystem (accepts : Bool) (previous next : Option (Json ν)) (message : Json ν) : Json ν :=
  match recordField (some message) with
  | none => message
  | some object =>
      if !isRole "system" message then message
      else if accepts && isLegalSystemPlacement previous next then message
      else .obj (prefixMessageContent (object.set "role" (.str "user")))

/-- The loop over the messages; the message before is as the loop left it. -/
def rewriteFrom (accepts : Bool) (previous : Option (Json ν)) : List (Json ν) → List (Json ν)
  | [] => []
  | message :: rest =>
      let message := rewriteSystem accepts previous rest.head? message
      message :: rewriteFrom accepts (some message) rest

def rewriteMidConversationSystemMessages (profile : AnthropicModelProfile) : Body ν → Body ν :=
  onMessages (rewriteFrom profile.acceptsMidConversationSystem none)

def continueMessage : Json ν :=
  .obj [("role", .str "user"), ("content", .arr [textBlock automaticContinuePrompt])]

def fixTrailing (messages : List (Json ν)) : List (Json ν) :=
  if messages.getLast?.any (isRole "assistant") then messages ++ [continueMessage] else messages

def fixTrailingAssistantMessage : Body ν → Body ν := onMessages fixTrailing

/-! ## All passes -/

def hasMessageOutputConfig (body : Body ν) : Bool :=
  match arrayField (body.get "messages") with
  | none => false
  | some messages => messages.any fun message =>
      (recordField (some message)).any fun object => (object.get outputConfigKey).isSome

def modelProfile (body : Body ν) : AnthropicModelProfile :=
  getAnthropicModelProfile ((stringField (body.get "model")).getD "")

/-- The passes over the messages and the tools. -/
def prepareMessages (body : Body ν) (profile : AnthropicModelProfile) : Body ν :=
  let body := filterInvalidAssistantThinkingBlocks body
  let body := sanitizeTools body
  let body := mergeToolResultTextBlocks body
  let body := stripToolReferenceTurnBoundary body
  let body := rewriteMidConversationSystemMessages profile body
  fixTrailingAssistantMessage body

def preprocessClaudeCodeMessagesBody (body : Body ν) : Body ν :=
  if hasMessageOutputConfig body then body
  else
    let profile := modelProfile body
    let body := stripCacheControlScope body
    let body := stripVolatileCurrentDate body
    let body := applyModelProfile body profile
    prepareMessages body profile

end Messages

end GhcpConsole.ClaudeCode
