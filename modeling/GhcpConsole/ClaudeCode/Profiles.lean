import GhcpConsole.Copilot.ModelIds

/-!
# Anthropic model profiles

`anthropicModelProfiles.ts`: what a model accepts. A model that is not in the table gets the profile of
its family.
-/

namespace GhcpConsole.ClaudeCode

inductive ThinkingPolicy
  | enabledOnly | adaptiveOnly | all
deriving DecidableEq, Repr

structure AnthropicModelProfile where
  canonicalId : String
  acceptedEfforts : List String
  thinking : ThinkingPolicy
  maxThinkingBudget : Nat
  acceptsMidConversationSystem : Bool
deriving DecidableEq, Repr

def defaultMaxThinkingBudget : Nat := 32000

/-- A profile without its id, and what may override it. -/
structure BaseProfile where
  acceptedEfforts : List String
  thinking : ThinkingPolicy
  maxThinkingBudget : Nat := defaultMaxThinkingBudget
  acceptsMidConversationSystem : Bool := false

def enabledOnly : BaseProfile where
  acceptedEfforts := []
  thinking := .enabledOnly

def allThinking : BaseProfile where
  acceptedEfforts := ["low", "medium", "high", "max"]
  thinking := .all

def adaptiveOnly : BaseProfile where
  acceptedEfforts := ["low", "medium", "high", "xhigh", "max"]
  thinking := .adaptiveOnly

def profile (canonicalId : String) (base : BaseProfile) : AnthropicModelProfile where
  canonicalId
  acceptedEfforts := base.acceptedEfforts
  thinking := base.thinking
  maxThinkingBudget := base.maxThinkingBudget
  acceptsMidConversationSystem := base.acceptsMidConversationSystem

def profiles : List AnthropicModelProfile :=
  [profile "claude-haiku-4-5" enabledOnly,
    profile "claude-sonnet-4" allThinking,
    profile "claude-sonnet-4-5" enabledOnly,
    profile "claude-sonnet-4-6" allThinking,
    profile "claude-opus-4-5" enabledOnly,
    profile "claude-opus-4-6" allThinking,
    profile "claude-opus-4-6-1m" allThinking,
    profile "claude-opus-4-7" adaptiveOnly,
    profile "claude-opus-4-7-1m-internal" adaptiveOnly,
    profile "claude-opus-4-7-high" { adaptiveOnly with acceptedEfforts := ["high"] },
    profile "claude-opus-4-7-xhigh" { adaptiveOnly with acceptedEfforts := ["xhigh"] },
    profile "claude-opus-4-8" { adaptiveOnly with acceptsMidConversationSystem := true }]

/-! ## Families -/

/-- The text at the start and behind each dash. -/
def segments (id : List Char) : List (List Char) :=
  id :: id.tails.filterMap fun
    | '-' :: rest => some rest
    | _ => none

/-- `/(^|-)word($|-)/i`. -/
def hasSegment (word : String) (id : String) : Bool :=
  (segments (id.toList.map Char.toLower)).any fun text =>
    word.toList.isPrefixOf text && ((text.drop word.length).head?.all (· = '-'))

/-- `id.includes(word)`. -/
def includes (word : String) (id : String) : Bool := id.toList.tails.any (word.toList.isPrefixOf ·)

def familyProfile (canonicalId : String) : AnthropicModelProfile :=
  if hasSegment "haiku" canonicalId then profile canonicalId enabledOnly
  else if hasSegment "opus-4-7" canonicalId || hasSegment "opus-4-8" canonicalId then
    profile canonicalId
      { adaptiveOnly with acceptsMidConversationSystem := includes "opus-4-8" canonicalId }
  else if hasSegment "sonnet-4-5" canonicalId || hasSegment "opus-4-5" canonicalId then
    profile canonicalId enabledOnly
  else profile canonicalId allThinking

def getAnthropicModelProfile (modelId : String) : AnthropicModelProfile :=
  let canonicalId := Copilot.toCanonicalModelId modelId
  (profiles.find? (·.canonicalId = canonicalId)).getD (familyProfile canonicalId)

example : (getAnthropicModelProfile "claude-opus-4.8-20260101").acceptsMidConversationSystem = true := by
  decide +kernel

/-- No profile overrides the budget. -/
theorem maxThinkingBudget_profile (modelId : String) :
    (getAnthropicModelProfile modelId).maxThinkingBudget = defaultMaxThinkingBudget := by
  have hfamily (id : String) : (familyProfile id).maxThinkingBudget = defaultMaxThinkingBudget := by
    unfold familyProfile
    split
    · rfl
    · split
      · rfl
      · split <;> rfl
  rw [getAnthropicModelProfile]
  cases hfind : profiles.find? (·.canonicalId = Copilot.toCanonicalModelId modelId) with
  | none => exact hfamily _
  | some found =>
      have hall : ∀ found ∈ profiles, found.maxThinkingBudget = defaultMaxThinkingBudget := by decide
      exact hall found (List.mem_of_find?_eq_some hfind)

end GhcpConsole.ClaudeCode
