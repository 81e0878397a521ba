import GhcpConsole.Login.QueueMethods

/-!
# The loop of the login queue

`drain` takes payloads while a slot is free. A payload that waits can always be run, so none is
passed over, and the loop ends with no payload or with no slot.
-/

namespace GhcpConsole.Login

structure Whole (s : Process) : Prop extends Sound s where
  covered : Covered s
  saturated : Saturated s

section Drain

variable {s : Process} {p : Payload} {rest : List Payload}

/-- `drain` finds the task of a payload that waits and can run it. -/
theorem Sound.runnable (h : Sound s) (rest : List Payload) (hp : p ∈ s.pending) :
    ∃ task, s.db.getTask p.enterpriseId p.taskId = some task
      ∧ Process.isRunnable { s with pending := rest } task p = true := by
  obtain ⟨v, hv, htask, henterprise, hst, -⟩ := h.line.queued p hp
  have hcurrent := h.stored.orderly.current_of_active hv (by simp [hst, TaskStatus.active])
  obtain ⟨record, hget, hrecord⟩ := look_getTask h.stored.orderly.toInv hv hcurrent
  have hfree : (p.taskId, p.oauthAttemptId) ∉ s.cancelled := by
    intro hmem
    obtain ⟨k, c, hk, -, hown, -⟩ := h.closing.cancelled _ _ hmem
    obtain ⟨w, hw, -, -, -, hcalled⟩ := h.closing.stands k c hk
    rw [hown] at hw
    rw [← Option.some.inj (hv.symm.trans hw), hst] at hcalled
    cases hcalled
  refine ⟨record, htask ▸ henterprise ▸ hget, ?_⟩
  simp [Process.isRunnable, hfree, hrecord.attempt, hrecord.status, hst]

/-- What `runLoginTask` finds: the task becomes running. -/
theorem markRunning_begun (h : Sound s) (hpending : s.pending = p :: rest)
    (hslot : s.active.card < s.concurrency) (now : Nat) (logPath message : String) :
    (s.db.markRunning p.enterpriseId p.taskId logPath (some p.oauthAttemptId) now).1.isSome = true
    ∧ Sound ((s.begun p rest message).exec (.markRunning p.enterpriseId p.taskId logPath
        (some p.oauthAttemptId) now))
    ∧ (Covered (s.begun p rest message) → Covered ((s.begun p rest message).exec
        (.markRunning p.enterpriseId p.taskId logPath (some p.oauthAttemptId) now)))
    ∧ ∃ v, ((s.begun p rest message).exec (.markRunning p.enterpriseId p.taskId logPath
        (some p.oauthAttemptId) now)).db.look p.oauthAttemptId = some v ∧ v.status = .running := by
  have hbegun := h.begun hpending hslot message
  obtain ⟨v, hv, htask, henterprise, hst, -⟩ := h.line.queued p (by simp [hpending])
  have hrun : (s.begun p rest message).runs[s.runs.length]? =
      some { payload := p, aborted := false, phase := .threw message } :=
    getElem?_concat.mpr (.inr ⟨rfl, rfl⟩)
  have hactive : v.status.active = true := by simp [hst, TaskStatus.active]
  rcases markRunning_look p.enterpriseId p.taskId logPath p.oauthAttemptId now h.stored.orderly
    (hbegun.run_named hrun) with ⟨w, ⟨hw, -⟩, -, hset, hresult⟩ | ⟨hnone, -⟩
  · obtain rfl : v = w := Option.some.inj (hv.symm.trans hw)
    have hexec := hbegun.writeRun (c := .markRunning p.enterpriseId p.taskId logPath
      (some p.oauthAttemptId) now) hrun trivial hv hset (by rintro ⟨⟩)
      ⟨fun _ => .inl rfl, by rintro ⟨⟩, by rintro ⟨⟩⟩ (by simp [hst, TaskStatus.calledOff]) (by rintro ⟨⟩)
    have hlast := (hset p.oauthAttemptId).trans (if_pos rfl)
    refine ⟨?_, hexec, fun hcovered => hcovered.write hset (by rintro ⟨⟩), _, hlast, rfl⟩
    have hcurrent := hexec.stored.orderly.current_of_active hlast rfl
    obtain ⟨record, hget, -⟩ := look_getTask hexec.stored.orderly.toInv hlast hcurrent
    dsimp only at hget
    rw [htask, henterprise] at hget
    rw [hresult]
    exact Option.isSome_of_eq_some hget
  · exact absurd hst (hnone v ⟨hv, htask, henterprise, hactive⟩)

/-- The three ways a start goes. -/
theorem start_eq (env : Env) (now : Nat) (h : Sound s) (hpending : s.pending = p :: rest)
    (hslot : s.active.card < s.concurrency) :
    (∃ message, Process.start env { s with pending := rest } p now = s.begun p rest message)
    ∨ (Process.start env { s with pending := rest } p now
        = ((s.begun p rest "").exec (.markRunning p.enterpriseId p.taskId (env.logPath p)
            (some p.oauthAttemptId) now)).setRun s.runs.length .signingIn)
    ∨ ∃ message code, Process.start env { s with pending := rest } p now
        = ((s.begun p rest message).exec (.markRunning p.enterpriseId p.taskId (env.logPath p)
            (some p.oauthAttemptId) now)).exec (.markFailed p.enterpriseId p.taskId message
              (some p.oauthAttemptId) (some code) now) := by
  obtain ⟨task, hmark⟩ := Option.isSome_iff_exists.mp
    (markRunning_begun h hpending hslot now (env.logPath p) "").1
  unfold Process.start Process.runLoginTask
  dsimp only
  cases houtcome : env.outcome s.runs.length with
  | logFails message => exact .inl ⟨message, rfl⟩
  | opens =>
      refine .inr (.inl ?_)
      simp only [hmark]
      simp only [Process.setRun, Process.begun, Process.exec, modify_concat]
      rfl
  | failsAtOnce message code =>
      refine .inr (.inr ⟨message, code, ?_⟩)
      simp only [hmark]
      rfl

theorem Sound.start (env : Env) (now : Nat) (h : Sound s) (hcovered : Covered s) (hpending : s.pending = p :: rest)
    (hslot : s.active.card < s.concurrency) :
    Sound (Process.start env { s with pending := rest } p now)
      ∧ Covered (Process.start env { s with pending := rest } p now)
      ∧ (Process.start env { s with pending := rest } p now).pending = rest := by
  have hrun : ∀ message, (s.begun p rest message).runs[s.runs.length]? =
      some { payload := p, aborted := false, phase := .threw message } := fun _ =>
    getElem?_concat.mpr (.inr ⟨rfl, rfl⟩)
  rcases start_eq env now h hpending hslot with
    ⟨message, heq⟩ | heq | ⟨message, code, heq⟩
  · rw [heq]
    exact ⟨h.begun hpending hslot message, hcovered.begun hpending message, rfl⟩
  · obtain ⟨-, hsound, hkeeps, v, hv, hst⟩ := markRunning_begun h hpending hslot now
      (env.logPath p) ""
    rw [heq]
    refine ⟨hsound.setRun (hrun "") nofun nofun ?_,
      (hkeeps (hcovered.begun hpending "")).setRun (hrun "") nofun nofun, rfl⟩
    intro w hw _
    rw [← Option.some.inj (hv.symm.trans hw), hst]
    exact ⟨fun _ => .inl rfl, nofun, nofun⟩
  · obtain ⟨-, hsound, hkeeps, -⟩ := markRunning_begun h hpending hslot now
      (env.logPath p) message
    rw [heq]
    obtain ⟨hclosed, hcloses, -⟩ := hsound.closeRun (c := .markFailed p.enterpriseId p.taskId message
      (some p.oauthAttemptId) (some code) now) (hrun message) trivial rfl nofun
      (.of_closed nofun nofun rfl) (fun _ => rfl)
    exact ⟨hclosed, hcloses (hkeeps (hcovered.begun hpending message)), rfl⟩

/-- The loop leaves no payload or no slot. -/
theorem Sound.drainFrom (env : Env) (now : Nat) (l : List Payload) (h : Sound s) (hcovered : Covered s) (hl : s.pending = l) :
    Sound (s.drainFrom env now l) ∧ Covered (s.drainFrom env now l)
      ∧ ((s.drainFrom env now l).pending = []
        ∨ (s.drainFrom env now l).concurrency ≤ (s.drainFrom env now l).active.card) := by
  induction l generalizing s with
  | nil =>
      have hsame : s.drainFrom env now [] = s := by
        show { s with pending := [] } = s
        rw [← hl]
      rw [hsame]
      exact ⟨h, hcovered, .inl hl⟩
  | cons p rest ih =>
      unfold Process.drainFrom
      by_cases hslot : s.active.card < s.concurrency
      · rw [if_pos hslot]
        obtain ⟨task, hget, hrunnable⟩ := h.runnable rest (p := p) (by simp [hl])
        obtain ⟨hstarts, hcovers, hrest⟩ := h.start env now hcovered hl hslot
        simp only [hget, hrunnable, if_true]
        exact ih hstarts hcovers hrest
      · rw [if_neg hslot]
        have hsame : { s with pending := p :: rest } = s := by rw [← hl]
        rw [hsame]
        exact ⟨h, hcovered, .inr (Nat.le_of_not_lt hslot)⟩

theorem Sound.drain (env : Env) (now : Nat) (h : Sound s) (hcovered : Covered s) : Whole (s.drain env now) := by
  unfold Process.drain
  cases haccepting : s.accepting with
  | false =>
      refine ⟨h, hcovered, ?_⟩
      intro hother
      simp only [Bool.not_false, if_true] at hother
      rw [haccepting] at hother
      cases hother
  | true =>
      obtain ⟨hsound, hcovers, hends⟩ := h.drainFrom env now s.pending hcovered rfl
      refine ⟨hsound, hcovers, fun _ hne => ?_⟩
      exact hends.resolve_left hne

end Drain

end GhcpConsole.Login
