import GhcpConsole.ClaudeCode.Preprocess

/-!
# What the model profile makes of a body

Each policy brings its own condition about (`EffortOk`, `ThinkingOk`, `BudgetOk`, `ChoiceOk`) and keeps
those of the policies before it. A body that meets all four is left as it is.
-/

namespace GhcpConsole.ClaudeCode

/-! ## Conditions -/

section Conditions

variable {ν : Type}

/-- An effort is one that the profile accepts, or it is no effort. -/
def EffortOk (profile : AnthropicModelProfile) (outputConfig : Option (Json ν)) : Prop :=
  ∀ effort, stringField ((recordField outputConfig).bind (·.get "effort")) = some effort →
    effort ≠ "" → acceptsEffort profile effort = true

/-- The type of the thinking, where it is an object. -/
def thinkingType (thinking : Option (Json ν)) : Option String :=
  stringField ((recordField thinking).bind (·.get "type"))

def ThinkingOk (profile : AnthropicModelProfile) (thinking : Option (Json ν)) : Prop :=
  ¬(profile.thinking = .enabledOnly ∧ thinkingType thinking = some "adaptive")
    ∧ ¬(profile.thinking = .adaptiveOnly ∧ thinkingType thinking = some "enabled")

def thinkingBudget [JsInteger ν] (thinking : Option (Json ν)) : Option Nat :=
  positiveInteger ((recordField thinking).bind (·.get "budget_tokens"))

def BudgetOk [JsInteger ν] (profile : AnthropicModelProfile) (thinking maxTokens : Option (Json ν)) : Prop :=
  thinkingType thinking = some "enabled" → ∀ budget, thinkingBudget thinking = some budget →
    (∀ n, positiveInteger maxTokens = some n → 1 < n)
      ∧ budget ≤ thinkingCap ν profile (positiveInteger maxTokens)

def choiceType (choice : Option (Json ν)) : Option String :=
  stringField ((recordField choice).bind (·.get "type"))

def ChoiceOk (thinking choice : Option (Json ν)) : Prop :=
  (recordField thinking).isSome = true → thinkingType thinking ≠ some "disabled" →
    choiceType choice ≠ some "any" ∧ choiceType choice ≠ some "tool"

structure Settled [JsInteger ν] (profile : AnthropicModelProfile) (body : Body ν) : Prop where
  effort : EffortOk profile (body.get outputConfigKey)
  thinking : ThinkingOk profile (body.get "thinking")
  budget : BudgetOk profile (body.get "thinking") (body.get "max_tokens")
  choice : ChoiceOk (body.get "thinking") (body.get "tool_choice")

end Conditions

/-! ## Efforts -/

section Efforts

variable {ν : Type} {body : Body ν} {profile : AnthropicModelProfile}

theorem get_deleteEffort (outputConfig : OrderedMap String (Json ν)) {key : String}
    (hkey : key ≠ outputConfigKey) : (deleteEffort body outputConfig).get key = body.get key := by
  rw [deleteEffort]
  split
  · exact OrderedMap.get_erase_ne hkey
  · exact OrderedMap.get_set_ne hkey

/-- After the removal there is no effort. -/
theorem effort_deleteEffort (outputConfig : OrderedMap String (Json ν)) :
    (recordField ((deleteEffort body outputConfig).get outputConfigKey)).bind (·.get "effort") = none := by
  rw [deleteEffort]
  split
  · rw [OrderedMap.get_erase_self]
    rfl
  · rw [OrderedMap.get_set_self]
    exact OrderedMap.get_erase_self

theorem EffortOk.of_none {outputConfig : Option (Json ν)}
    (h : (recordField outputConfig).bind (·.get "effort") = none) : EffortOk profile outputConfig := by
  intro text htext
  rw [h] at htext
  cases htext

theorem get_applyEffortPolicy {key : String} (hkey : key ≠ outputConfigKey) :
    (applyEffortPolicy body profile).get key = body.get key := by
  unfold applyEffortPolicy
  split
  · rfl
  · split
    · rfl
    · split
      · rfl
      · split
        · rfl
        · exact get_deleteEffort _ hkey

theorem effortOk_applyEffortPolicy :
    EffortOk profile ((applyEffortPolicy body profile).get outputConfigKey) := by
  unfold applyEffortPolicy
  split
  · rename_i hnone
    exact EffortOk.of_none (by rw [hnone, Option.bind_none])
  · rename_i outputConfig hrecord
    split
    · rename_i hnone
      intro effort heffort
      rw [hrecord, Option.bind_some, hnone] at heffort
      cases heffort
    · rename_i text htext
      have hsame {effort : String} (heffort : stringField
          ((recordField (body.get outputConfigKey)).bind (·.get "effort")) = some effort) :
          text = effort := by
        rw [hrecord, Option.bind_some, htext] at heffort
        exact Option.some.inj heffort
      split
      · rename_i hempty
        exact fun effort heffort hne => absurd (hsame heffort ▸ hempty) hne
      · split
        · rename_i haccepts
          exact fun effort heffort _ => hsame heffort ▸ haccepts
        · exact EffortOk.of_none (effort_deleteEffort outputConfig)

theorem applyEffortPolicy_of_ok (h : EffortOk profile (body.get outputConfigKey)) :
    applyEffortPolicy body profile = body := by
  unfold applyEffortPolicy
  split
  · rfl
  · rename_i outputConfig hrecord
    split
    · rfl
    · rename_i effort heffort
      split
      · rfl
      · rename_i hne
        rw [if_pos (h effort (by rw [hrecord, Option.bind_some, heffort]) hne)]

theorem get_stripOutputConfigEffort {key : String} (hkey : key ≠ outputConfigKey) :
    (stripOutputConfigEffort body).get key = body.get key := by
  unfold stripOutputConfigEffort
  split
  · rfl
  · split
    · exact get_deleteEffort _ hkey
    · rfl

theorem effortOk_stripOutputConfigEffort :
    EffortOk profile ((stripOutputConfigEffort body).get outputConfigKey) := by
  unfold stripOutputConfigEffort
  split
  · rename_i hnone
    exact EffortOk.of_none (by rw [hnone, Option.bind_none])
  · rename_i outputConfig hrecord
    split
    · exact EffortOk.of_none (effort_deleteEffort outputConfig)
    · rename_i hnone
      refine EffortOk.of_none ?_
      rw [hrecord, Option.bind_some]
      exact Option.not_isSome_iff_eq_none.mp hnone

end Efforts

/-! ## Thinking -/

section Thinking

variable {ν : Type} {profile : AnthropicModelProfile} {value : Option (Json ν)}

theorem thinkingType_eq {members : OrderedMap String (Json ν)} (h : recordField value = some members) :
    thinkingType value = stringField (members.get "type") := by
  rw [thinkingType, h, Option.bind_some]

theorem ThinkingOk.of_ne (hadaptive : thinkingType value ≠ some "adaptive")
    (henabled : thinkingType value ≠ some "enabled") : ThinkingOk profile value :=
  ⟨fun h => hadaptive h.2, fun h => henabled h.2⟩

theorem thinkingType_adaptive : thinkingType (some (adaptiveThinking : Json ν)) = some "adaptive" := rfl

variable [JsInteger ν] {body : Body ν}

theorem thinkingType_enabled {budget : Nat} :
    thinkingType (some (enabledThinking budget : Json ν)) = some "enabled" := rfl

theorem get_applyThinkingPolicy {key : String} (hkey : key ≠ "thinking") :
    (applyThinkingPolicy body profile).get key = body.get key := by
  unfold applyThinkingPolicy
  split
  · rfl
  · split
    · rfl
    · split
      · rfl
      · split
        · split
          · exact OrderedMap.get_erase_ne hkey
          · exact OrderedMap.get_erase_ne hkey
          · exact OrderedMap.get_set_ne hkey
        · split
          · exact OrderedMap.get_set_ne hkey
          · rfl

theorem thinkingOk_applyThinkingPolicy :
    ThinkingOk profile ((applyThinkingPolicy body profile).get "thinking") := by
  unfold applyThinkingPolicy
  split
  · rename_i hnone
    refine ThinkingOk.of_ne ?_ ?_ <;> rw [thinkingType, hnone] <;> exact (Option.some_ne_none _).symm
  · rename_i thinking hrecord
    split
    · rename_i hnone
      refine ThinkingOk.of_ne ?_ ?_ <;> rw [thinkingType_eq hrecord, hnone] <;> exact (Option.some_ne_none _).symm
    · rename_i text htext
      have htype : thinkingType (body.get "thinking") = some text := (thinkingType_eq hrecord).trans htext
      split
      · rename_i hplain
        refine ThinkingOk.of_ne ?_ ?_ <;> rw [htype] <;> rcases hplain with rfl | rfl <;> decide
      · split
        · rename_i hadaptive
          have hnot : ¬ profile.thinking = .adaptiveOnly := by
            rw [hadaptive.1]
            decide
          split
          · rw [OrderedMap.get_erase_self]
            exact ThinkingOk.of_ne (Option.some_ne_none _).symm (Option.some_ne_none _).symm
          · rw [OrderedMap.get_erase_self]
            exact ThinkingOk.of_ne (Option.some_ne_none _).symm (Option.some_ne_none _).symm
          · rw [OrderedMap.get_set_self]
            rw [ThinkingOk, thinkingType_enabled]
            exact ⟨fun h => absurd h.2 (by decide), fun h => hnot h.1⟩
        · rename_i hadaptive
          split
          · rename_i henabled
            have hnot : ¬ profile.thinking = .enabledOnly := by
              rw [henabled.1]
              decide
            rw [OrderedMap.get_set_self]
            rw [ThinkingOk, thinkingType_adaptive]
            exact ⟨fun h => hnot h.1, fun h => absurd h.2 (by decide)⟩
          · rename_i henabled
            rw [ThinkingOk, htype, Option.some.injEq, Option.some.injEq]
            exact ⟨hadaptive, henabled⟩

theorem applyThinkingPolicy_of_ok (h : ThinkingOk profile (body.get "thinking")) :
    applyThinkingPolicy body profile = body := by
  unfold applyThinkingPolicy
  split
  · rfl
  · rename_i thinking hrecord
    split
    · rfl
    · rename_i text htext
      rw [ThinkingOk, thinkingType_eq hrecord, htext, Option.some.injEq, Option.some.injEq] at h
      split
      · rfl
      · rw [if_neg h.1, if_neg h.2]

end Thinking

/-! ## The budget -/

section Budget

variable {ν : Type} [JsInteger ν] {body : Body ν} {profile : AnthropicModelProfile}

/-- What the policy does: nothing, or the thinking goes with the effort, or the budget is lowered. -/
inductive Capped (profile : AnthropicModelProfile) (body : Body ν) : Body ν → Prop
  | same (h : BudgetOk profile (body.get "thinking") (body.get "max_tokens")) : Capped profile body body
  | deleted : Capped profile body (stripOutputConfigEffort (body.erase "thinking"))
  | lowered (thinking : OrderedMap String (Json ν))
      (hthinking : recordField (body.get "thinking") = some thinking)
      (htokens : ∀ n, positiveInteger (body.get "max_tokens") = some n → 1 < n) :
      Capped profile body (body.set "thinking" (.obj (thinking.set "budget_tokens"
        (.num (JsInteger.ofInteger
          (thinkingCap ν profile (positiveInteger (body.get "max_tokens"))))))))

theorem capThinkingBudget_capped : Capped profile body (capThinkingBudget body profile) := by
  unfold capThinkingBudget
  split
  · rename_i hnone
    refine .same fun htype => ?_
    rw [thinkingType, hnone] at htype
    cases htype
  · rename_i thinking hrecord
    split
    · rename_i htype
      exact .same fun henabled => absurd ((thinkingType_eq hrecord).symm.trans henabled) htype
    · split
      · rename_i hnone
        refine .same fun _ budget hbudget => ?_
        rw [thinkingBudget, hrecord, Option.bind_some, hnone] at hbudget
        cases hbudget
      · rename_i budget hbudget
        dsimp only
        split
        · exact .deleted
        · rename_i htokens
          have hmore : ∀ n, positiveInteger (body.get "max_tokens") = some n → 1 < n := by
            intro n hn
            rw [hn, Option.any_some, decide_eq_true_eq] at htokens
            omega
          split
          · exact .lowered thinking hrecord hmore
          · rename_i hle
            refine .same fun _ budget' hbudget' => ⟨hmore, ?_⟩
            rw [thinkingBudget, hrecord, Option.bind_some, hbudget] at hbudget'
            rw [← Option.some.inj hbudget']
            omega

theorem capThinkingBudget_of_ok (h : BudgetOk profile (body.get "thinking") (body.get "max_tokens")) :
    capThinkingBudget body profile = body := by
  unfold capThinkingBudget
  split
  · rfl
  · rename_i thinking hrecord
    split
    · rfl
    · rename_i htype
      split
      · rfl
      · rename_i budget hbudget
        have hok := h ((thinkingType_eq hrecord).trans (not_not.mp htype)) budget
          (by rw [thinkingBudget, hrecord, Option.bind_some, hbudget])
        have hmore : ¬ (positiveInteger (body.get "max_tokens")).any (· ≤ 1) = true := by
          cases htokens : positiveInteger (body.get "max_tokens") with
          | none => exact Bool.false_ne_true
          | some n =>
              have hn := hok.1 n htokens
              rw [Option.any_some, decide_eq_true_eq]
              omega
        dsimp only
        rw [if_neg hmore, if_neg (by omega)]

variable {result : Body ν}

theorem Capped.get {key : String} (h : Capped profile body result) (hthinking : key ≠ "thinking")
    (hconfig : key ≠ outputConfigKey) : result.get key = body.get key := by
  cases h with
  | same h => rfl
  | deleted =>
      rw [get_stripOutputConfigEffort hconfig]
      exact OrderedMap.get_erase_ne hthinking
  | lowered thinking hthinking' htokens => exact OrderedMap.get_set_ne hthinking

theorem Capped.effortOk (h : Capped profile body result)
    (heffort : EffortOk profile (body.get outputConfigKey)) :
    EffortOk profile (result.get outputConfigKey) := by
  cases h with
  | same h => exact heffort
  | deleted => exact effortOk_stripOutputConfigEffort
  | lowered thinking hthinking htokens =>
      rw [OrderedMap.get_set_ne (by decide)]
      exact heffort

theorem Capped.thinkingOk (h : Capped profile body result)
    (hok : ThinkingOk profile (body.get "thinking")) : ThinkingOk profile (result.get "thinking") := by
  cases h with
  | same h => exact hok
  | deleted =>
      rw [get_stripOutputConfigEffort (by decide), OrderedMap.get_erase_self]
      exact ThinkingOk.of_ne nofun nofun
  | lowered thinking hthinking htokens =>
      rw [OrderedMap.get_set_self]
      rw [ThinkingOk, thinkingType_eq hthinking] at hok
      rw [ThinkingOk, thinkingType_eq rfl, OrderedMap.get_set_ne (by decide)]
      exact hok

/-- The cap is a positive integer below `max_tokens`, small enough to be exact. -/
theorem thinkingCap_bounds (ν : Type) [JsInteger ν]
    (hmax : profile.maxThinkingBudget = defaultMaxThinkingBudget) (maxTokens : Option Nat) :
    0 < thinkingCap ν profile maxTokens
      ∧ thinkingCap ν profile maxTokens ≤ defaultMaxThinkingBudget := by
  have hdefault : defaultMaxThinkingBudget = 32000 := rfl
  cases maxTokens with
  | none =>
      show 0 < profile.maxThinkingBudget ∧ profile.maxThinkingBudget ≤ _
      omega
  | some n =>
      show 0 < min profile.maxThinkingBudget (max 1 (JsInteger.pred ν n))
        ∧ min profile.maxThinkingBudget (max 1 (JsInteger.pred ν n)) ≤ _
      omega

theorem thinkingCap_lt (hmax : profile.maxThinkingBudget = defaultMaxThinkingBudget) {n : Nat}
    (hn : 1 < n) : thinkingCap ν profile (some n) < n := by
  have hdefault : defaultMaxThinkingBudget = 32000 := rfl
  show min profile.maxThinkingBudget (max 1 (JsInteger.pred ν n)) < n
  by_cases hsmall : n ≤ 2 ^ 53
  · have hpred : JsInteger.pred ν n = n - 1 := JsInteger.pred_exact hsmall
    omega
  · omega

theorem Capped.budgetOk (h : Capped profile body result)
    (hmax : profile.maxThinkingBudget = defaultMaxThinkingBudget) :
    BudgetOk profile (result.get "thinking") (result.get "max_tokens") := by
  cases h with
  | same h => exact h
  | deleted =>
      rw [get_stripOutputConfigEffort (by decide), OrderedMap.get_erase_self]
      exact nofun
  | lowered thinking hthinking htokens =>
      rw [OrderedMap.get_set_self, OrderedMap.get_set_ne (by decide)]
      intro _ budget hbudget
      have hbounds := thinkingCap_bounds ν hmax (positiveInteger (body.get "max_tokens"))
      have hdefault : defaultMaxThinkingBudget = 32000 := rfl
      rw [thinkingBudget, recordField, Option.bind_some, Json.members?, Option.bind_some,
        OrderedMap.get_set_self, positiveInteger,
        JsInteger.positiveInteger_ofInteger hbounds.1 (by omega)] at hbudget
      exact ⟨htokens, Nat.le_of_eq (Option.some.inj hbudget).symm⟩

end Budget

/-! ## The tool choice -/

section Choice

variable {ν : Type} {body : Body ν}

theorem get_disableForcedToolChoiceWhenThinking {key : String} (hkey : key ≠ "tool_choice") :
    (disableForcedToolChoiceWhenThinking body).get key = body.get key := by
  unfold disableForcedToolChoiceWhenThinking
  split
  · rfl
  · split
    · rfl
    · split
      · exact OrderedMap.get_set_ne hkey
      · exact OrderedMap.get_set_ne hkey
      · rfl

theorem choiceType_auto : choiceType (some (Json.obj [("type", .str "auto")] : Json ν)) = some "auto" :=
  rfl

theorem choiceOk_disableForcedToolChoiceWhenThinking :
    ChoiceOk (body.get "thinking")
      ((disableForcedToolChoiceWhenThinking body).get "tool_choice") := by
  intro hrecord htype
  obtain ⟨thinking, hthinking⟩ := Option.isSome_iff_exists.mp hrecord
  rw [thinkingType_eq hthinking] at htype
  unfold disableForcedToolChoiceWhenThinking
  simp only [hthinking, if_neg htype]
  split
  · rw [OrderedMap.get_set_self, choiceType_auto]
    exact ⟨by decide, by decide⟩
  · rw [OrderedMap.get_set_self, choiceType_auto]
    exact ⟨by decide, by decide⟩
  · rename_i hany htool
    exact ⟨hany, htool⟩

theorem disableForcedToolChoiceWhenThinking_of_ok
    (h : ChoiceOk (body.get "thinking") (body.get "tool_choice")) :
    disableForcedToolChoiceWhenThinking body = body := by
  unfold disableForcedToolChoiceWhenThinking
  split
  · rfl
  · rename_i thinking hthinking
    split
    · rfl
    · rename_i htype
      have hok := h (by rw [hthinking]; rfl) (by rw [thinkingType_eq hthinking]; exact htype)
      split
      · rename_i hany
        exact absurd hany hok.1
      · rename_i htool
        exact absurd htool hok.2
      · rfl

end Choice

/-! ## All policies -/

section All

variable {ν : Type} [JsInteger ν] {body : Body ν} {profile : AnthropicModelProfile}

theorem settled_applyModelProfile (hmax : profile.maxThinkingBudget = defaultMaxThinkingBudget) :
    Settled profile (applyModelProfile body profile) := by
  rw [applyModelProfile]
  generalize hthought : applyThinkingPolicy (applyEffortPolicy body profile) profile = thought
  have hthinking : ThinkingOk profile ((applyEffortPolicy thought profile).get "thinking") := by
    rw [get_applyEffortPolicy (by decide), ← hthought]
    exact thinkingOk_applyThinkingPolicy
  have hcapped : Capped profile (applyEffortPolicy thought profile)
      (capThinkingBudget (applyEffortPolicy thought profile) profile) := capThinkingBudget_capped
  generalize capThinkingBudget (applyEffortPolicy thought profile) profile = capped at hcapped ⊢
  have heffort := hcapped.effortOk effortOk_applyEffortPolicy
  exact {
    effort := by
      rw [get_disableForcedToolChoiceWhenThinking (by decide)]
      exact heffort
    thinking := by
      rw [get_disableForcedToolChoiceWhenThinking (by decide)]
      exact hcapped.thinkingOk hthinking
    budget := by
      rw [get_disableForcedToolChoiceWhenThinking (by decide),
        get_disableForcedToolChoiceWhenThinking (by decide)]
      exact hcapped.budgetOk hmax
    choice := by
      rw [get_disableForcedToolChoiceWhenThinking (by decide)]
      exact choiceOk_disableForcedToolChoiceWhenThinking }

/-- A settled body is left as it is. -/
theorem applyModelProfile_of_settled (h : Settled profile body) : applyModelProfile body profile = body := by
  rw [applyModelProfile]
  rw [applyEffortPolicy_of_ok h.effort, applyThinkingPolicy_of_ok h.thinking,
    applyEffortPolicy_of_ok h.effort, capThinkingBudget_of_ok h.budget,
    disableForcedToolChoiceWhenThinking_of_ok h.choice]

end All

end GhcpConsole.ClaudeCode
