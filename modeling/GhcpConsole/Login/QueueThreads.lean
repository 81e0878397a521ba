import GhcpConsole.Login.QueueState

/-!
# Threads of the login queue

The changes of a run, a cancellation or a retry that keep the invariant of the queue. A cancellation
is the one change that touches the database, the pending list, the runs and the cancellations at
once, so each part of the invariant has its own lemma about it.
-/

namespace GhcpConsole.Login

/-! ## Runs -/

section Runs

variable {s : Process} {j : Nat} {run : Run} {phase : RunPhase}

theorem setRun_number {i : Nat} {run' : Run} : (s.setRun j phase).runs[i]? = some run' ↔
    ∃ run, s.runs[i]? = some run ∧ run' = if j = i then { run with phase := phase } else run :=
  getElem?_modify_some

theorem setRun_payloads : (s.setRun j phase).runs.map (·.payload) = s.runs.map (·.payload) :=
  map_modify_same fun _ => rfl

/-- The runs under way are those that were, with their payloads. -/
theorem setRun_alive (hrun : s.runs[j]? = some run) (halive : run.phase ≠ .finished)
    (hphase : phase ≠ .finished) {i : Nat} {P : Payload → Prop} :
    (∃ r, (s.setRun j phase).runs[i]? = some r ∧ P r.payload ∧ r.phase ≠ .finished) ↔
      ∃ r, s.runs[i]? = some r ∧ P r.payload ∧ r.phase ≠ .finished := by
  constructor
  · rintro ⟨r', hr', hP, hr'alive⟩
    obtain ⟨r, hr, rfl⟩ := setRun_number.mp hr'
    by_cases hij : j = i
    · subst hij
      obtain rfl : run = r := Option.some.inj (hrun.symm.trans hr)
      rw [if_pos rfl] at hP
      exact ⟨run, hr, hP, halive⟩
    · rw [if_neg hij] at hP hr'alive
      exact ⟨r, hr, hP, hr'alive⟩
  · rintro ⟨r, hr, hP, hralive⟩
    refine ⟨_, setRun_number.mpr ⟨r, hr, rfl⟩, ?_⟩
    by_cases hij : j = i
    · rw [if_pos hij]
      exact ⟨hP, hphase⟩
    · rw [if_neg hij]
      exact ⟨hP, hralive⟩

theorem Sound.setRun (h : Sound s) (hrun : s.runs[j]? = some run) (halive : run.phase ≠ .finished)
    (hphase : phase ≠ .finished)
    (hfits : ∀ v, s.db.look run.payload.oauthAttemptId = some v → run.Fits v.status →
      { run with phase := phase }.Fits v.status) : Sound (s.setRun j phase) := by
  refine ⟨{ h.stored with }, { h.line with }, ?_, ?_, { h.retrying with }⟩
  · refine { h.slots with
      payloads := ?_, stands := ?_, active := ?_, controllers := ?_, running := ?_ }
    · exact setRun_payloads.trans h.slots.payloads
    · intro i r' hr'
      obtain ⟨r, hr, rfl⟩ := setRun_number.mp hr'
      obtain ⟨v, hv, htask, henterprise, hold⟩ := h.slots.stands i r hr
      by_cases hij : j = i
      · subst hij
        obtain rfl : run = r := Option.some.inj (hrun.symm.trans hr)
        rw [if_pos rfl]
        exact ⟨v, hv, htask, henterprise, hfits v hv hold⟩
      · rw [if_neg hij]
        exact ⟨v, hv, htask, henterprise, hold⟩
    · intro id
      show id ∈ s.active ↔ _
      rw [h.slots.active]
      exact exists_congr fun i =>
        (setRun_alive (P := fun p => p.taskId = id) hrun halive hphase).symm
    · intro id i
      show s.controllers id = some i ↔ _
      rw [h.slots.controllers]
      exact (setRun_alive (P := fun p => p.taskId = id) hrun halive hphase).symm
    · have hcount := countP_modify (p := fun run => run.phase ≠ .finished)
        (f := ({ · with phase := phase })) hrun
      simp only [ne_eq, halive, hphase, not_false_eq_true, decide_true, if_true] at hcount
      show (s.runs.modify j _).countP _ = s.active.card
      rw [← h.slots.running]
      exact Nat.add_right_cancel hcount
  · refine { h.closing with completion := ?_, awaited := ?_ }
    · intro k c o hk hwaits i r' hr' hown hr'alive
      obtain ⟨r, hr, hrown, hralive⟩ := (setRun_alive
        (P := fun p => p.oauthAttemptId = c.attemptId) hrun halive hphase).mp
        ⟨r', hr', hown, hr'alive⟩
      exact h.closing.completion k c o hk hwaits i r hr hrown hralive
    · intro k c i hk hwaits
      obtain ⟨r, hr, hcases⟩ := h.closing.awaited k c i hk hwaits
      refine ⟨_, setRun_number.mpr ⟨r, hr, rfl⟩, ?_⟩
      by_cases hij : j = i
      · subst hij
        obtain rfl : run = r := Option.some.inj (hrun.symm.trans hr)
        rw [if_pos rfl]
        rcases hcases with hown | hfinished | hcancelling
        · exact .inl hown
        · exact absurd hfinished halive
        · exact .inr (.inr hcancelling)
      · rw [if_neg hij]
        exact hcases

theorem Covered.setRun (h : Covered s) (hrun : s.runs[j]? = some run) (halive : run.phase ≠ .finished)
    (hphase : phase ≠ .finished) : Covered (s.setRun j phase) := by
  intro x v hv hst hstage
  rcases h x v hv hst hstage with hwaits | ⟨i, hi⟩
  · exact .inl hwaits
  · exact .inr ⟨i, (setRun_alive (P := fun p => p.oauthAttemptId = x) hrun halive hphase).mpr hi⟩

/-- The callback of `finally` before it drains. -/
def Process.left (s : Process) (j : Nat) (id : String) : Process :=
  { s.setRun j .finished with
    active := s.active.erase id
    controllers := Function.update s.controllers id none
    completions := Function.update s.completions id none }

theorem Sound.left (h : Sound s) (hrun : s.runs[j]? = some run) (halive : run.phase = .caught) :
    Sound (s.left j run.payload.taskId) := by
  have hunfinished : run.phase ≠ .finished := by
    rw [halive]
    nofun
  have hactive : run.payload.taskId ∈ s.active :=
    (h.slots.active _).mpr ⟨j, run, hrun, rfl, hunfinished⟩
  have halone : ∀ i r, s.runs[i]? = some r → r.payload.taskId = run.payload.taskId →
      r.phase ≠ .finished → i = j := by
    intro i r hr hid hralive
    have hi := (h.slots.controllers _ i).mpr ⟨r, hr, hid, hralive⟩
    have hj := (h.slots.controllers _ j).mpr ⟨run, hrun, rfl, hunfinished⟩
    exact Option.some.inj (hi.symm.trans hj)
  -- The runs under way afterwards are the others.
  have hrest : ∀ {i : Nat} {P : Payload → Prop},
      (∃ r, (s.left j run.payload.taskId).runs[i]? = some r ∧ P r.payload ∧ r.phase ≠ .finished) ↔
        i ≠ j ∧ ∃ r, s.runs[i]? = some r ∧ P r.payload ∧ r.phase ≠ .finished := by
    intro i P
    constructor
    · rintro ⟨r', hr', hP, hr'alive⟩
      obtain ⟨r, hr, rfl⟩ := setRun_number.mp hr'
      have hij : j ≠ i := by
        rintro rfl
        rw [if_pos rfl] at hr'alive
        exact hr'alive rfl
      rw [if_neg hij] at hP hr'alive
      exact ⟨hij.symm, r, hr, hP, hr'alive⟩
    · rintro ⟨hij, r, hr, hP, hralive⟩
      exact ⟨r, setRun_number.mpr ⟨r, hr, by rw [if_neg hij.symm]⟩, hP, hralive⟩
  refine ⟨{ h.stored with }, ?_, ?_, ?_, { h.retrying with }⟩
  · exact { h.line with idle := fun p hp hmem => h.line.idle p hp (Finset.mem_of_mem_erase hmem) }
  · refine { h.slots with
      payloads := ?_, stands := ?_, active := ?_, controllers := ?_, completions := ?_
      running := ?_ }
    · exact setRun_payloads.trans h.slots.payloads
    · intro i r' hr'
      obtain ⟨r, hr, rfl⟩ := setRun_number.mp hr'
      obtain ⟨v, hv, htask, henterprise, hfits⟩ := h.slots.stands i r hr
      by_cases hij : j = i
      · subst hij
        obtain rfl : run = r := Option.some.inj (hrun.symm.trans hr)
        rw [if_pos rfl]
        refine ⟨v, hv, htask, henterprise, ?_, fun _ hne => absurd rfl hne, ?_⟩
        · rintro (hlive | ⟨_, hlive⟩) <;> cases hlive
        · intro hpending
          obtain ⟨-, message, hthrew⟩ := hfits.unstarted hpending
          rw [halive] at hthrew
          cases hthrew
      · rw [if_neg hij]
        exact ⟨v, hv, htask, henterprise, hfits⟩
    · intro id
      show id ∈ s.active.erase run.payload.taskId ↔ _
      rw [Finset.mem_erase, h.slots.active]
      constructor
      · rintro ⟨hne, i, r, hr, hid, hralive⟩
        refine ⟨i, (hrest (P := fun p => p.taskId = id)).mpr ⟨?_, r, hr, hid, hralive⟩⟩
        rintro rfl
        obtain rfl : run = r := Option.some.inj (hrun.symm.trans hr)
        exact hne hid.symm
      · rintro ⟨i, hi⟩
        obtain ⟨hij, r, hr, hid, hralive⟩ := (hrest (P := fun p => p.taskId = id)).mp hi
        refine ⟨?_, i, r, hr, hid, hralive⟩
        rintro rfl
        exact hij (halone i r hr hid hralive)
    · intro id i
      show Function.update s.controllers run.payload.taskId none id = some i ↔ _
      rw [hrest (P := fun p => p.taskId = id)]
      by_cases hid : id = run.payload.taskId
      · subst hid
        rw [Function.update_self]
        constructor
        · nofun
        · rintro ⟨hij, r, hr, hrid, hralive⟩
          exact absurd (halone i r hr hrid hralive) hij
      · rw [Function.update_of_ne hid, h.slots.controllers]
        constructor
        · rintro ⟨r, hr, hrid, hralive⟩
          refine ⟨?_, r, hr, hrid, hralive⟩
          rintro rfl
          obtain rfl : run = r := Option.some.inj (hrun.symm.trans hr)
          exact hid hrid.symm
        · exact fun hi => hi.2
    · show Function.update s.completions _ _ = Function.update s.controllers _ _
      rw [h.slots.completions]
    · have hcount := countP_modify (p := fun run => run.phase ≠ .finished)
        (f := ({ · with phase := .finished })) hrun
      simp only [ne_eq, hunfinished, not_false_eq_true, not_true_eq_false, decide_true, decide_false,
        if_true, Bool.false_eq_true, if_false] at hcount
      have hcard := Finset.card_erase_add_one hactive
      rw [← h.slots.running] at hcard
      show (s.runs.modify j _).countP _ = (s.active.erase run.payload.taskId).card
      exact Nat.add_right_cancel (hcount.trans hcard.symm)
  · refine { h.closing with completion := ?_, awaited := ?_ }
    · intro k c o hk hwaits i r' hr' hown hr'alive
      obtain ⟨-, r, hr, hrown, hralive⟩ := (hrest
        (P := fun p => p.oauthAttemptId = c.attemptId)).mp ⟨r', hr', hown, hr'alive⟩
      exact h.closing.completion k c o hk hwaits i r hr hrown hralive
    · intro k c i hk hwaits
      obtain ⟨r, hr, hcases⟩ := h.closing.awaited k c i hk hwaits
      refine ⟨_, setRun_number.mpr ⟨r, hr, rfl⟩, ?_⟩
      by_cases hij : j = i
      · rw [if_pos hij]
        exact .inr (.inl rfl)
      · rw [if_neg hij]
        exact hcases

theorem Covered.left (hs : Sound s) (h : Covered s) (hrun : s.runs[j]? = some run)
    (halive : run.phase = .caught) : Covered (s.left j run.payload.taskId) := by
  intro x v hv hst hstage
  rcases h x v hv hst hstage with hwaits | ⟨i, r, hr, hown, hralive⟩
  · exact .inl hwaits
  · refine .inr ⟨i, r, setRun_number.mpr ⟨r, hr, ?_⟩, hown, hralive⟩
    have hij : j ≠ i := by
      rintro rfl
      obtain rfl : run = r := Option.some.inj (hrun.symm.trans hr)
      obtain ⟨w, hw, -, -, hfits⟩ := hs.slots.stands j run hr
      obtain rfl : v = w := by
        rw [hown] at hw
        exact Option.some.inj (hv.symm.trans hw)
      obtain ⟨-, message, hthrew⟩ := hfits.unstarted hst
      rw [halive] at hthrew
      cases hthrew
    rw [if_neg hij]

end Runs

/-! ## Cancellations and retries -/

section Threads

variable {s : Process} {i k : Nat} {c : Cancellation} {r : Retry}

theorem setCancellation_number {k' : Nat} {c' : Cancellation} {phase : CancelPhase} :
    (s.setCancellation k phase).cancellations[k']? = some c' ↔
      ∃ c, s.cancellations[k']? = some c ∧ c' = if k = k' then { c with phase := phase } else c :=
  getElem?_modify_some

/-- A cancellation goes on, once its attempt is closed. -/
theorem Sound.setCancellation (h : Sound s) (hk : s.cancellations[k]? = some c)
    (hunfinished : c.phase ≠ .finished) {phase : CancelPhase} (cancelled : Finset (String × String))
    (cancelling : Finset String) (hphase : ∀ completion, phase ≠ .waiting completion)
    (hclosed : (∃ completion, c.phase = .waiting completion) →
      ∀ v, s.db.look c.attemptId = some v → v.status ≠ .cancelling)
    (hcancelled : ∀ id x, (id, x) ∈ cancelled → (id, x) ∈ s.cancelled
      ∧ (id = c.taskId → x = c.attemptId → ∃ request, phase = .reporting request))
    (hcancelling : ∀ id, id ∈ cancelling ↔
      id ∈ s.cancelling ∧ (phase = .finished → id ≠ c.taskId)) :
    Sound { s.setCancellation k phase with cancelled := cancelled, cancelling := cancelling } := by
  -- A thread of the new state under way was under way.
  have hold : ∀ {k' : Nat} {c' : Cancellation}, (s.setCancellation k phase).cancellations[k']? = some c' →
      ∃ c₀, s.cancellations[k']? = some c₀ ∧ c₀.taskId = c'.taskId ∧ c₀.attemptId = c'.attemptId
        ∧ c₀.enterpriseId = c'.enterpriseId ∧ (c'.phase ≠ .finished → c₀.phase ≠ .finished)
        ∧ (k = k' → c₀ = c ∧ c'.phase = phase) ∧ (k ≠ k' → c₀ = c') := by
    intro k' c' hc'
    obtain ⟨c₀, hc₀, rfl⟩ := setCancellation_number.mp hc'
    by_cases hkk : k = k'
    · subst hkk
      obtain rfl : c = c₀ := Option.some.inj (hk.symm.trans hc₀)
      rw [if_pos rfl]
      exact ⟨c, hc₀, rfl, rfl, rfl, fun _ => hunfinished, fun _ => ⟨rfl, rfl⟩, fun hne => absurd rfl hne⟩
    · rw [if_neg hkk]
      exact ⟨c₀, hc₀, rfl, rfl, rfl, fun hne => hne, fun heq => absurd heq hkk, fun _ => rfl⟩
  have hwaits : ∀ {k' : Nat} {c' : Cancellation} {o : Option Nat},
      (s.setCancellation k phase).cancellations[k']? = some c' →
      c'.phase = .waiting o → s.cancellations[k']? = some c' := by
    intro k' c' o hc' hwaiting
    obtain ⟨c₀, hc₀, -, -, -, -, hsame, hother⟩ := hold hc'
    by_cases hkk : k = k'
    · exact absurd ((hsame hkk).2.symm.trans hwaiting) (hphase o)
    · rwa [hother hkk] at hc₀
  refine ⟨{ h.stored with }, { h.line with }, { h.slots with }, ?_, { h.retrying with }⟩
  refine { h.closing with
    stands := ?_, single := ?_, cancelling := ?_, cancelled := ?_, waiting := ?_, completion := ?_
    awaited := ?_ }
  · intro k' c' hc'
    obtain ⟨c₀, hc₀, htask, hattempt, henterprise, -⟩ := hold hc'
    rw [← htask, ← hattempt, ← henterprise]
    exact h.closing.stands k' c₀ hc₀
  · intro k₁ k₂ c₁ c₂ h₁ h₂ hne₁ hne₂ htask
    obtain ⟨d₁, hd₁, htask₁, -, -, halive₁, -⟩ := hold h₁
    obtain ⟨d₂, hd₂, htask₂, -, -, halive₂, -⟩ := hold h₂
    exact h.closing.single k₁ k₂ d₁ d₂ hd₁ hd₂ (halive₁ hne₁) (halive₂ hne₂)
      (htask₁.trans (htask.trans htask₂.symm))
  · intro id
    show id ∈ cancelling ↔ _
    rw [hcancelling, h.closing.cancelling]
    constructor
    · rintro ⟨⟨k', c', hc', rfl, halive⟩, hid⟩
      refine ⟨k', _, setCancellation_number.mpr ⟨c', hc', rfl⟩, ?_⟩
      by_cases hkk : k = k'
      · subst hkk
        obtain rfl : c = c' := Option.some.inj (hk.symm.trans hc')
        rw [if_pos rfl]
        exact ⟨rfl, fun hfinished => hid hfinished rfl⟩
      · rw [if_neg hkk]
        exact ⟨rfl, halive⟩
    · rintro ⟨k', c', hc', rfl, halive⟩
      obtain ⟨c₀, hc₀, htask, -, -, halive₀, hsame, -⟩ := hold hc'
      refine ⟨⟨k', c₀, hc₀, htask, halive₀ halive⟩, ?_⟩
      rintro hfinished hid
      have hkk := h.closing.single k' k c₀ c hc₀ hk (halive₀ halive) hunfinished (htask.trans hid)
      exact halive ((hsame hkk.symm).2.trans hfinished)
  · intro id x hx
    obtain ⟨hbefore, hreports⟩ := hcancelled id x hx
    obtain ⟨k', c', hc', rfl, rfl, hcases⟩ := h.closing.cancelled id x hbefore
    refine ⟨k', _, setCancellation_number.mpr ⟨c', hc', rfl⟩, ?_⟩
    by_cases hkk : k = k'
    · subst hkk
      obtain rfl : c = c' := Option.some.inj (hk.symm.trans hc')
      rw [if_pos rfl]
      exact ⟨rfl, rfl, .inr (hreports rfl rfl)⟩
    · rw [if_neg hkk]
      exact ⟨rfl, rfl, hcases⟩
  · intro x v hv hst
    obtain ⟨k', c', hc', hx, o, hwaiting⟩ := h.closing.waiting x v hv hst
    have hkk : k ≠ k' := by
      rintro rfl
      obtain rfl : c = c' := Option.some.inj (hk.symm.trans hc')
      exact hclosed ⟨o, hwaiting⟩ v (hx ▸ hv) hst
    exact ⟨k', c', setCancellation_number.mpr ⟨c', hc', by rw [if_neg hkk]⟩, hx, o, hwaiting⟩
  · intro k' c' o hc' hwaiting
    exact h.closing.completion k' c' o (hwaits hc' hwaiting) hwaiting
  · intro k' c' j hc' hwaiting
    exact h.closing.awaited k' c' j (hwaits hc' hwaiting) hwaiting

theorem setRetry_number {i' : Nat} {r' : Retry} {phase : RetryPhase} :
    (s.setRetry i phase).retries[i']? = some r' ↔
      ∃ r, s.retries[i']? = some r ∧ r' = if i = i' then { r with phase := phase } else r :=
  getElem?_modify_some

/-- A retry goes on: what it prepares then is an attempt of its own. -/
theorem Sound.setRetry (h : Sound s) (i : Nat) {phase : RetryPhase}
    (hprotecting : ∀ task, phase ≠ .protecting task)
    (hpreparing : ∀ task reserved x request, phase = .preparing task reserved x request →
      (x ≠ "" ∧ s.db.look x ≠ none ∧ ∀ p ∈ s.pushed, p.oauthAttemptId ≠ x)
      ∧ ∀ (i' : Nat) r' task' reserved' request', s.retries[i']? = some r' →
          r'.phase ≠ .preparing task' reserved' x request') : Sound (s.setRetry i phase) := by
  refine ⟨{ h.stored with read := ?_ }, { h.line with }, { h.slots with }, { h.closing with }, ?_⟩
  · intro i' r' task hr' hphase
    obtain ⟨r, hr, rfl⟩ := setRetry_number.mp hr'
    by_cases hii : i = i'
    · rw [if_pos hii] at hphase
      exact absurd hphase (hprotecting task)
    · rw [if_neg hii] at hphase ⊢
      exact h.stored.read i' r task hr hphase
  · constructor
    · intro i' r' task reserved x request hr' hphase
      obtain ⟨r, hr, rfl⟩ := setRetry_number.mp hr'
      by_cases hii : i = i'
      · rw [if_pos hii] at hphase
        exact (hpreparing task reserved x request hphase).1
      · rw [if_neg hii] at hphase
        exact h.retrying.preparing i' r task reserved x request hr hphase
    · intro i₁ i₂ r₁ r₂ task₁ task₂ reserved₁ reserved₂ x request₁ request₂ h₁ hphase₁ h₂ hphase₂
      obtain ⟨d₁, hd₁, rfl⟩ := setRetry_number.mp h₁
      obtain ⟨d₂, hd₂, rfl⟩ := setRetry_number.mp h₂
      by_cases hii₁ : i = i₁
      · by_cases hii₂ : i = i₂
        · exact hii₁.symm.trans hii₂
        · rw [if_pos hii₁] at hphase₁
          rw [if_neg hii₂] at hphase₂
          exact absurd hphase₂ ((hpreparing _ _ x _ hphase₁).2 i₂ d₂ _ _ _ hd₂)
      · rw [if_neg hii₁] at hphase₁
        by_cases hii₂ : i = i₂
        · rw [if_pos hii₂] at hphase₂
          exact absurd hphase₁ ((hpreparing _ _ x _ hphase₂).2 i₁ d₁ _ _ _ hd₁)
        · rw [if_neg hii₂] at hphase₂
          exact h.retrying.apart i₁ i₂ d₁ d₂ _ _ _ _ x _ _ hd₁ hphase₁ hd₂ hphase₂

theorem Sound.finishRetry (h : Sound s) (i : Nat) : Sound (s.setRetry i .finished) :=
  h.setRetry i (fun _ heq => by cases heq) fun _ _ _ _ heq => by cases heq

/-- `retryTask` begins. -/
theorem Sound.addRetry (h : Sound s) {task : LoginTaskRecord} (hphase : r.phase = .protecting task)
    (hget : s.db.getTask r.enterpriseId r.id = some task) :
    Sound { s with retries := s.retries ++ [r] } := by
  refine ⟨{ h.stored with read := ?_ }, { h.line with }, { h.slots with }, { h.closing with }, ?_⟩
  · intro i' r' task' hr' hphase'
    rcases getElem?_concat.mp hr' with hold | ⟨-, rfl⟩
    · exact h.stored.read i' r' task' hold hphase'
    · rw [hphase] at hphase'
      cases hphase'
      exact ⟨s.db, List.mem_cons_self .., hget⟩
  · constructor
    · intro i' r' task' reserved x request hr' hphase'
      rcases getElem?_concat.mp hr' with hold | ⟨-, rfl⟩
      · exact h.retrying.preparing i' r' task' reserved x request hold hphase'
      · rw [hphase] at hphase'
        cases hphase'
    · intro i₁ i₂ r₁ r₂ task₁ task₂ reserved₁ reserved₂ x request₁ request₂ h₁ hphase₁ h₂ hphase₂
      rcases getElem?_concat.mp h₁ with hold₁ | ⟨-, rfl⟩
      · rcases getElem?_concat.mp h₂ with hold₂ | ⟨-, rfl⟩
        · exact h.retrying.apart i₁ i₂ r₁ r₂ _ _ _ _ x _ _ hold₁ hphase₁ hold₂ hphase₂
        · rw [hphase] at hphase₂
          cases hphase₂
      · rw [hphase] at hphase₁
        cases hphase₁

theorem Sound.send (h : Sound s) (request : ProxyRequest) : Sound (s.send request) :=
  ⟨{ h.stored with }, { h.line with }, { h.slots with }, { h.closing with }, { h.retrying with }⟩

end Threads

end GhcpConsole.Login
