import GhcpConsole.Login.QueueDrain

/-!
# Runs of the login queue

Every event keeps the invariant of the queue, so it holds in every state of every interleaving.
-/

namespace GhcpConsole.Login

/-! ## Enqueueing and retrying -/

section Enqueueing

variable {s : Process} {x enterpriseId id : String} {now : Nat}

theorem Whole.same {c : Call} (h : Whole s) (hc : c.Admissible (s.db :: s.past))
    (hlook : (c.exec s.db).look = s.db.look) : Whole (s.exec c) :=
  ⟨h.toSound.same hc hlook, h.covered.same hlook, h.saturated⟩

theorem Whole.cancel (h : Whole s) (enterpriseId id : String) : Whole (s.cancel enterpriseId id) :=
  ⟨h.toSound.cancel enterpriseId id, h.covered.cancel h.toSound enterpriseId id,
    h.saturated.cancel h.stored enterpriseId id⟩

theorem Whole.send (h : Whole s) (request : ProxyRequest) : Whole (s.send request) :=
  ⟨h.toSound.send request, h.covered, h.saturated⟩

theorem Whole.finishRetry (h : Whole s) (i : Nat) : Whole (s.setRetry i .finished) :=
  ⟨h.toSound.finishRetry i, h.covered, h.saturated⟩

/-- A payload that waits, or the run of one, is found by `isBusy`. -/
theorem Sound.busy (h : Sound s) (hcovers : Covers s x) {v : AttemptView}
    (hv : s.db.look x = some v) : s.isBusy v.taskId = true := by
  unfold Process.isBusy
  rw [Bool.or_eq_true]
  rcases hcovers with ⟨p, hp, rfl⟩ | ⟨j, run, hrun, rfl, halive⟩
  · obtain ⟨w, hw, htask, -⟩ := h.line.queued p hp
    obtain rfl : v = w := Option.some.inj (hv.symm.trans hw)
    exact .inr (List.any_eq_true.mpr ⟨p, hp, by simp [htask]⟩)
  · obtain ⟨w, hw, htask, -⟩ := h.slots.stands j run hrun
    obtain rfl : v = w := Option.some.inj (hv.symm.trans hw)
    exact .inl (decide_eq_true ((h.slots.active _).mpr ⟨j, run, hrun, htask.symm, halive⟩))

/-- A task without attempts is not in the queue. -/
theorem Sound.idle (h : Sound s) (hnone : ∀ y v, s.db.look y = some v → v.taskId ≠ id) :
    s.isBusy id = false := by
  unfold Process.isBusy
  rw [Bool.or_eq_false_iff]
  constructor
  · refine decide_eq_false fun hactive => ?_
    obtain ⟨j, run, hrun, hid, -⟩ := (h.slots.active _).mp hactive
    obtain ⟨v, hv, htask, -⟩ := h.slots.stands j run hrun
    exact hnone _ v hv (htask.trans hid)
  · refine List.any_eq_false.mpr fun p hp hid => ?_
    obtain ⟨v, hv, htask, -⟩ := h.line.queued p hp
    exact hnone _ v hv (htask.trans (by simpa using hid))

theorem fresh_look (h : Sound s) (hfresh : s.fresh id = true) :
    ∀ y v, s.db.look y = some v → v.taskId ≠ id := by
  intro y v hv
  obtain ⟨a, -, t, ht, -, -, rfl⟩ := (look_eq_some h.stored.orderly.toInv).mp hv
  have hdb := List.all_eq_true.mp hfresh s.db (List.mem_cons_self ..)
  simpa [TaskRow.view] using List.all_eq_true.mp hdb t ht

/-- The payload of an attempt that waits is pushed and the queue drained. -/
theorem Whole.push (h : Sound s) (hbut : CoveredBut x s) (env : Env) (now : Nat) {p : Payload}
    (hx : p.oauthAttemptId = x) (hp : Stands s.db.look p.taskId p.enterpriseId p.oauthAttemptId
      fun v => v.status = .pending ∧ v.stage = some "queued")
    (hnamed : p.oauthAttemptId ≠ "") (hbusy : s.isBusy p.taskId = false)
    (hnew : ∀ q ∈ s.pushed, q.oauthAttemptId ≠ p.oauthAttemptId)
    (hretry : ∀ (i : Nat) r task reserved y request, s.retries[i]? = some r →
      r.phase = .preparing task reserved y request → p.oauthAttemptId ≠ y) :
    Whole ((s.push p).drain env now) := by
  subst hx
  exact (h.push hp hnamed hbusy hnew hretry).drain env now hbut.push

theorem Whole.enqueue (h : Whole s) (env : Env) {request : LoginTaskRequest}
    (hnamed : request.oauthAttemptId ≠ "") (hfresh : s.fresh id = true) :
    Whole (s.enqueue env enterpriseId id request now) := by
  unfold Process.enqueue
  have hc : (Call.createTask enterpriseId id request.input now).Admissible (s.db :: s.past) := by
    refine ⟨hnamed, fun db hdb t ht => ?_⟩
    simpa using List.all_eq_true.mp (List.all_eq_true.mp hfresh db hdb) t ht
  cases hrun : s.db.createTask enterpriseId id request.input now with
  | error e => exact h
  | ok answer =>
      obtain ⟨result, db'⟩ := answer
      have hexec : (Call.createTask enterpriseId id request.input now).exec s.db = db' := by
        simp only [Call.exec, hrun, settle]
      rcases createTask_look h.stored.orderly hnamed hrun with
        ⟨rfl, v, record, hv, -, rfl, hid, hst, hstage⟩ | ⟨hnew, hset, record, rfl, hid, hst, hstage⟩
      · -- The task was there: what waits already is not queued again.
        have hsame := h.same hc (by rw [hexec])
        dsimp only
        split
        · exact hsame
        · rename_i hrest
          simp only [Bool.or_eq_true, decide_eq_true_eq, not_or, not_not] at hrest
          obtain ⟨⟨hidle, hpending⟩, hqueued⟩ := hrest
          have hcovers := h.covered _ v hv (hst.symm.trans hpending) (hstage.symm.trans hqueued)
          have hbusy := h.toSound.busy hcovers hv
          rw [← hid] at hbusy
          exact absurd hbusy hidle
      · have hother := fresh_look h.toSound hfresh
        have hleave : ∀ z, ((Call.createTask enterpriseId id request.input now).exec s.db).look z =
            if z = request.oauthAttemptId then some (queuedView id enterpriseId request.identity)
            else (s.db.look z).map (AttemptView.leave id) := by
          intro z
          rw [hexec, hset z]
          show _ = if z = request.input.oauthAttemptId then
            some (queuedView id enterpriseId request.input.identity) else _
          split
          · rfl
          · cases hz : s.db.look z with
            | none => rfl
            | some v => simp [AttemptView.leave, hother z v hz]
        have hcreated := h.toSound.create hc hnew hleave rfl fun y v hv htask =>
          absurd htask (hother y v hv)
        have hbusy : (s.exec (.createTask enterpriseId id request.input now)).isBusy record.id = false := by
          rw [hid]
          exact h.toSound.idle hother
        have hlast := (hleave request.oauthAttemptId).trans (if_pos rfl)
        dsimp only
        rw [hbusy, hst, hstage]
        refine Whole.push hcreated (x := request.oauthAttemptId) ?_ env now rfl
          ⟨_, hlast, hid.symm, rfl, rfl, rfl⟩ hnamed hbusy ?_ ?_
        · intro y v hv hpending hqueued hne
          rcases look_leave_cases hleave hv with ⟨rfl, -⟩ | ⟨w, hw, hwst, hwstage⟩
          · exact absurd rfl hne
          · exact h.covered y w hw (hwst.trans hpending) (hwstage.trans hqueued)
        · intro q hq heq
          exact (h.line.known q hq).2 (heq ▸ hnew)
        · intro i r task reserved y proxyRequest hi hphase heq
          exact (h.retrying.preparing i r task reserved y proxyRequest hi hphase).2.1 (heq ▸ hnew)

/-- `retry` of an attempt that no payload was pushed for. -/
theorem Whole.retry (h : Whole s) (env : Env) {task : LoginTaskRecord} {request : LoginTaskRequest}
    (hnamed : request.oauthAttemptId ≠ "")
    (hnew : ∀ q ∈ s.pushed, q.oauthAttemptId ≠ request.oauthAttemptId)
    (hretry : ∀ (i : Nat) r task reserved y proxyRequest, s.retries[i]? = some r →
      r.phase = .preparing task reserved y proxyRequest → request.oauthAttemptId ≠ y) :
    Whole (s.retry env task request now) := by
  unfold Process.retry
  cases hget : s.db.getTask task.enterpriseId task.id with
  | none => exact h
  | some current =>
      dsimp only
      split
      · exact h
      · rename_i hcurrent
        split
        · exact h
        · rename_i hidle
          simp only [Bool.or_eq_true, decide_eq_true_eq, not_or, not_not] at hcurrent
          obtain ⟨hpending, hattempt⟩ := hcurrent
          obtain ⟨y, v, hv, htask, henterprise, -, hdescribes⟩ :=
            getTask_look h.stored.orderly.toInv hget
          obtain rfl : request.oauthAttemptId = y :=
            Option.some.inj (hattempt.symm.trans hdescribes.attempt)
          have hst : v.status = .pending := hdescribes.status.symm.trans hpending
          have hc : (Call.setStage task.enterpriseId task.id request.oauthAttemptId "queued"
            now).Admissible (s.db :: s.past) := by
            show "queued" ≠ "deleting"
            decide
          rcases setStage_look task.enterpriseId task.id request.oauthAttemptId "queued" now
            h.stored.orderly with ⟨w, ⟨hw, -⟩, hset⟩ | ⟨hnone, -⟩
          · obtain rfl : v = w := Option.some.inj (hv.symm.trans hw)
            have hstarted : ∀ (j : Nat) run, s.runs[j]? = some run →
                run.payload.oauthAttemptId ≠ request.oauthAttemptId := by
              intro j run hrun
              obtain ⟨start, hstart, heq⟩ := h.toSound.run_started hrun
              refine hnew _ (h.line.order.subset (List.mem_append_left _ ?_))
              exact heq ▸ List.mem_map_of_mem hstart
            have hwritten := h.toSound.write hc hv hset
              (fun p hp => hnew p (h.line.order.subset (List.mem_append_right _ hp)))
              (fun j run hrun heq => absurd heq (hstarted j run hrun)) (fun hcalled => hcalled)
              (fun hcancelling => hcancelling) (fun hcancelling hne => absurd hcancelling hne)
            have hlast := (hset request.oauthAttemptId).trans (if_pos rfl)
            refine Whole.push hwritten (x := request.oauthAttemptId) ?_ env now rfl
              ⟨_, hlast, htask, henterprise, hst, rfl⟩ hnamed (Bool.eq_false_iff.mpr hidle) hnew
              hretry
            intro z u hu hzst hzstage hne
            rcases look_set_cases hset hu with ⟨rfl, -⟩ | ⟨-, hold⟩
            · exact absurd rfl hne
            · exact h.covered z u hold hzst hzstage
          · exact absurd ⟨hv, htask, henterprise, by simp [hst, TaskStatus.active]⟩ (hnone v)

end Enqueueing

/-! ## Retries -/

section Retries

variable {s s' : Process} {i : Nat} {r : Retry} {task reserved : LoginTaskRecord}
  {x message code : String} {now : Nat}

theorem Whole.retryReserves (h : Whole s) (hr : s.retries[i]? = some r)
    (hphase : r.phase = .protecting task) (hnamed : x ≠ "") :
    Whole (s.retryReserves i r task x now) := by
  unfold Process.retryReserves
  have hc : (Call.reserveRetry r.enterpriseId task x now).Admissible (s.db :: s.past) := by
    obtain ⟨db, hdb, hget⟩ := h.stored.read i r task hr hphase
    obtain ⟨t, -, -, hid, heq⟩ := getTask_eq_some hget
    have hsame : task.id = r.id := by
      rw [← heq]
      exact hid
    exact ⟨hnamed, db, hdb, r.enterpriseId, hsame ▸ hget⟩
  have hfinish : Whole (s.setRetry i .finished) := h.finishRetry i
  cases hrun : s.db.reserveRetry r.enterpriseId task x now with
  | error e => exact hfinish
  | ok answer =>
      obtain ⟨result, db'⟩ := answer
      have hexec : (Call.reserveRetry r.enterpriseId task x now).exec s.db = db' := by
        simp only [Call.exec, hrun, settle]
      obtain ⟨x₀, v₀, record, hattempt, hv₀, htask, henterprise, hfailed, hcurrent, hnew, hset, rfl,
        hdescribes⟩ := reserveRetry_look h.stored.orderly hnamed
          (h.stored.runInv.current hc r.enterpriseId task x now rfl) hrun
      rw [← hexec] at hset
      have hlast : ∀ y v, s.db.look y = some v → v.taskId = task.id → v.current = true →
          v.status.calledOff = false := by
        intro y v hv hid hvcurrent
        obtain rfl := current_unique h.stored.orderly.toInv hv hv₀ hvcurrent hcurrent
          (hid.trans htask.symm)
        rw [Option.some.inj (hv.symm.trans hv₀), hfailed]
        rfl
      have hcreated := h.toSound.create hc hnew hset rfl hlast
      have hx : ((Call.reserveRetry r.enterpriseId task x now).exec s.db).look x ≠ none := by
        rw [hset x, if_pos rfl]
        exact Option.some_ne_none _
      refine Whole.send ⟨hcreated.setRetry i (fun _ heq => by cases heq) ?_, ?_, h.saturated⟩ _
      · rintro task' reserved' y request heq
        cases heq
        refine ⟨⟨hnamed, hx, ?_⟩, ?_⟩
        · rintro p hp rfl
          exact (h.line.known p hp).2 hnew
        · intro i' r' task' reserved' request' hr' hphase'
          exact (h.retrying.preparing i' r' task' reserved' x request' hr' hphase').2.1 hnew
      · intro y v hv hst hstage
        rcases look_leave_cases hset hv with ⟨-, rfl⟩ | ⟨w, hw, hwst, hwstage⟩
        · exact absurd hstage (by simp [preparingView])
        · exact h.covered y w hw (hwst.trans hst) (hwstage.trans hstage)

theorem Whole.release (h : Whole s) (i : Nat) (task : LoginTaskRecord) (x reason : String) :
    Whole (s.release i task x reason) :=
  Whole.send ⟨h.toSound.setRetry i (fun _ heq => by cases heq) (fun _ _ _ _ heq => by cases heq),
    h.covered, h.saturated⟩ _

theorem Whole.retryPrepared (h : Whole s) (env : Env) {ssoPassword : String} {request : Nat}
    (hr : s.retries[i]? = some r) (hphase : r.phase = .preparing task reserved x request) :
    Whole (s.retryPrepared env i r task reserved x ssoPassword now) := by
  unfold Process.retryPrepared
  obtain ⟨hnamed, -, hnew⟩ := h.retrying.preparing i r task reserved x request hr hphase
  split
  · exact h.release i task x _
  · split
    · exact (h.finishRetry i).cancel r.enterpriseId r.id
    · split
      · exact h.release i task x _
      · refine (h.finishRetry i).retry env hnamed hnew ?_
        rintro i' r' task' reserved' y proxyRequest hr' hphase' rfl
        obtain ⟨r₀, hr₀, rfl⟩ := setRetry_number.mp hr'
        by_cases hii : i = i'
        · rw [if_pos hii] at hphase'
          cases hphase'
        · rw [if_neg hii] at hphase'
          exact hii (h.retrying.apart i i' r r₀ task task' reserved reserved' x request proxyRequest
            hr hphase hr₀ hphase')

/-- The attempt of a retry is failed, unless the task is called off. -/
theorem Whole.failRetry (h : Whole s) {request : Nat} (hr : s.retries[i]? = some r)
    (hphase : r.phase = .preparing task reserved x request)
    (hopen : ∀ current, s.db.getTask r.enterpriseId r.id = some current →
      current.status.calledOff = true → current.status = .success) :
    Whole (s.exec (.markFailed r.enterpriseId r.id message (some x) (some code) now)) := by
  obtain ⟨hnamed, -, hnew⟩ := h.retrying.preparing i r task reserved x request hr hphase
  rcases finishAttempt_look r.enterpriseId r.id x .failed (some message) (some (Option.getD (some code)
    "login_failed")) now h.stored.orderly hnamed with ⟨v, ⟨hv, htask, henterprise, hactive⟩, hset⟩ |
    ⟨-, hsame⟩
  · have hcurrent := h.stored.orderly.current_of_active hv hactive
    obtain ⟨record, hget, hdescribes⟩ := look_getTask h.stored.orderly.toInv hv hcurrent
    rw [htask, henterprise] at hget
    have hstarted : ∀ (j : Nat) run, s.runs[j]? = some run → run.payload.oauthAttemptId ≠ x := by
      intro j run hrun
      obtain ⟨start, hstart, heq⟩ := h.toSound.run_started hrun
      refine hnew _ (h.line.order.subset (List.mem_append_left _ ?_))
      exact heq ▸ List.mem_map_of_mem hstart
    have hcalled : v.status.calledOff = false := by
      cases hcalled : v.status.calledOff with
      | false => rfl
      | true =>
          rw [← hdescribes.status] at hcalled hactive
          rw [hopen record hget hcalled] at hactive
          cases hactive
    refine ⟨h.toSound.write trivial hv hset
      (fun p hp => hnew p (h.line.order.subset (List.mem_append_right _ hp)))
      (fun j run hrun heq => absurd heq (hstarted j run hrun)) ?_ nofun ?_,
      h.covered.write hset nofun, h.saturated⟩
    · rw [hcalled]
      nofun
    · intro hcancelling
      rw [hcancelling] at hcalled
      cases hcalled
  · refine h.same trivial ?_
    show (s.db.markFailed r.enterpriseId r.id message (some x) (some code) now).2.look = _
    unfold Db.markFailed
    rw [Option.some_or, hsame]

theorem Whole.retryFailed (h : Whole s) {request : Nat} (hr : s.retries[i]? = some r)
    (hphase : r.phase = .preparing task reserved x request) :
    Whole (s.retryFailed i r task x message code now) := by
  unfold Process.retryFailed
  dsimp only
  cases hget : s.db.getTask r.enterpriseId r.id with
  | none =>
      refine (h.failRetry hr hphase ?_).release i task x message
      intro current hcurrent
      rw [hget] at hcurrent
      cases hcurrent
  | some current =>
      dsimp only
      split
      · exact (h.finishRetry i).cancel r.enterpriseId r.id
      · rename_i hcancelling
        split
        · exact h.finishRetry i
        · rename_i hcancelled
          refine (h.failRetry hr hphase ?_).release i task x message
          intro current' hcurrent' hcalled
          obtain rfl : current = current' := Option.some.inj (hget.symm.trans hcurrent')
          cases hst : current.status with
          | success => rfl
          | cancelling => exact absurd hst hcancelling
          | cancelled => exact absurd hst hcancelled
          | pending | running | failed =>
              rw [hst] at hcalled
              cases hcalled

theorem Whole.stepRetry (h : Whole s) (env : Env) {e : Event} (he : s.stepRetry env e = some s') :
    Whole s' := by
  unfold Process.stepRetry at he
  split at he
  · rename_i enterpriseId id credentialMode sameProvider
    cases hget : s.db.getTask enterpriseId id with
    | none =>
        rw [hget] at he
        cases he
        exact h
    | some task =>
        rw [hget] at he
        dsimp only at he
        split at he
        · cases he
          exact h
        · cases he
          exact ⟨h.toSound.addRetry rfl hget, h.covered, h.saturated⟩
  · rename_i i allowed attemptId now
    cases hr : s.retries[i]? with
    | none => rw [hr] at he; cases he
    | some r =>
        rw [hr] at he
        dsimp only at he
        split at he
        · rename_i task hphase
          split at he
          · cases he
          · rename_i hnamed
            split at he
            · cases he
              exact h.retryReserves hr hphase hnamed
            · cases he
              exact h.finishRetry i
        · cases he
  · rename_i i answer now
    cases hr : s.retries[i]? with
    | none => rw [hr] at he; cases he
    | some r =>
        rw [hr] at he
        dsimp only at he
        split at he
        · rename_i task reserved attemptId request hphase
          split at he
          · cases he
            exact h.retryPrepared env hr hphase
          · cases he
            exact h.retryFailed hr hphase
        · cases he
  · rename_i i
    cases hr : s.retries[i]? with
    | none => rw [hr] at he; cases he
    | some r =>
        rw [hr] at he
        dsimp only at he
        split at he
        · cases he
          exact h.finishRetry i
        · cases he
  · cases he

end Retries

/-! ## Runs -/

section Runs

variable {s s' : Process} {j : Nat} {run : Run} {phase : RunPhase} {message code : String} {now : Nat}

/-- A run that is past its start goes on in any way. -/
theorem Run.Fits.move {status : TaskStatus} (h : run.Fits status) (halive : run.phase ≠ .finished)
    (hstarted : run.aborted = true ∨ ∀ message, run.phase ≠ .threw message)
    (hlive : status = .running ∨ status = .cancelling ∨
      (phase ≠ .signingIn ∧ ∀ request, phase ≠ .saving request)) :
    { run with phase := phase }.Fits status := by
  refine ⟨?_, fun hcancelling _ => h.aborted hcancelling halive, ?_⟩
  · intro hphase
    rcases hlive with hrunning | hcancelling | ⟨hsigning, hsaving⟩
    · exact .inl hrunning
    · exact .inr hcancelling
    · rcases hphase with hphase | ⟨request, hphase⟩
      · exact absurd hphase hsigning
      · exact absurd hphase (hsaving request)
  · intro hpending
    obtain ⟨hgoes, message, hthrew⟩ := h.unstarted hpending
    rcases hstarted with haborted | hother
    · rw [hgoes] at haborted
      cases haborted
    · exact absurd hthrew (hother message)

theorem Whole.setRun (h : Whole s) (hrun : s.runs[j]? = some run) (halive : run.phase ≠ .finished)
    (hphase : phase ≠ .finished)
    (hfits : ∀ v, s.db.look run.payload.oauthAttemptId = some v → run.Fits v.status →
      { run with phase := phase }.Fits v.status) : Whole (s.setRun j phase) :=
  ⟨h.toSound.setRun hrun halive hphase hfits, h.covered.setRun hrun halive hphase, h.saturated⟩

theorem setRun_self (hrun : s.runs[j]? = some run) :
    (s.setRun j phase).runs[j]? = some { run with phase := phase } :=
  setRun_number.mpr ⟨run, hrun, by rw [if_pos rfl]⟩

/-- A stage is reported while the run signs in or saves its token. -/
theorem Whole.stageRun (h : Whole s) (stage : String) (now : Nat) (hrun : s.runs[j]? = some run) (hstage : stage ≠ "deleting")
    (hlive : run.phase = .signingIn ∨ ∃ request, run.phase = .saving request) :
    Whole (s.exec (.setStage run.payload.enterpriseId run.payload.taskId run.payload.oauthAttemptId
      stage now)) := by
  have halive : run.phase ≠ .finished := by
    rintro hfinished
    rw [hfinished] at hlive
    rcases hlive with hlive | ⟨_, hlive⟩ <;> cases hlive
  rcases setStage_look run.payload.enterpriseId run.payload.taskId run.payload.oauthAttemptId stage
    now h.stored.orderly with ⟨v, ⟨hv, -⟩, hset⟩ | ⟨-, hsame⟩
  · obtain ⟨w, hw, -, -, hfits⟩ := h.slots.stands j run hrun
    obtain rfl : v = w := Option.some.inj (hv.symm.trans hw)
    have hstarted : v.status ≠ .pending := by
      rcases hfits.live hlive with hst | hst <;> rw [hst] <;> nofun
    exact ⟨h.toSound.writeRun hrun hstage hv hset halive hfits (fun hcalled => hcalled)
      (fun hcancelling => hcancelling), h.covered.write hset hstarted, h.saturated⟩
  · refine h.same hstage ?_
    show (s.db.setStage _ _ _ _ _).look = _
    rw [hsame]

/-- The run of an attempt, no longer live, closes it. -/
theorem Whole.closeRun (h : Whole s) (hrun : s.runs[j]? = some run) {c : Call}
    {status : FinishedStatus} {reason code : Option String} (hc : c.Admissible (s.db :: s.past))
    (hexec : c.exec s.db = (s.db.finishAttempt run.payload.enterpriseId run.payload.taskId
      (some run.payload.oauthAttemptId) status reason code now).2)
    (halive : run.phase ≠ .finished) (hsigning : run.phase ≠ .signingIn)
    (hsaving : ∀ request, run.phase ≠ .saving request)
    (hfailed : status = .failed → run.aborted = false) :
    Whole (s.exec c) ∧ ∀ v, (s.exec c).db.look run.payload.oauthAttemptId = some v →
      v.status.active = false := by
  obtain ⟨hsound, hcovers, hclosed⟩ := h.toSound.closeRun hrun hc hexec halive
    (.of_closed hsigning hsaving (by cases status <;> rfl)) hfailed
  exact ⟨⟨hsound, hcovers h.covered, h.saturated⟩, hclosed⟩

theorem Whole.failRun (h : Whole s) (hrun : s.runs[j]? = some run) (halive : run.phase ≠ .finished)
    (hsigning : run.phase ≠ .signingIn) (hsaving : ∀ request, run.phase ≠ .saving request)
    (haborted : run.aborted = false) (message code : String) (now : Nat) :
    Whole (s.exec (.markFailed run.payload.enterpriseId run.payload.taskId message
      (some run.payload.oauthAttemptId) (some code) now))
    ∧ ∀ v, (s.exec (.markFailed run.payload.enterpriseId run.payload.taskId message
      (some run.payload.oauthAttemptId) (some code) now)).db.look run.payload.oauthAttemptId = some v →
        v.status.active = false :=
  h.closeRun (c := .markFailed run.payload.enterpriseId run.payload.taskId message
    (some run.payload.oauthAttemptId) (some code) now) hrun trivial rfl halive hsigning hsaving
    fun _ => haborted

theorem Whole.succeedRun (h : Whole s) (hrun : s.runs[j]? = some run)
    (halive : run.phase ≠ .finished) (hsigning : run.phase ≠ .signingIn)
    (hsaving : ∀ request, run.phase ≠ .saving request) (now : Nat) :
    Whole (s.exec (.markSuccess run.payload.enterpriseId run.payload.taskId
      (some run.payload.oauthAttemptId) now)) :=
  (h.closeRun (c := .markSuccess run.payload.enterpriseId run.payload.taskId
    (some run.payload.oauthAttemptId) now) hrun trivial rfl halive hsigning hsaving nofun).1

/-- The `catch` of `runLoginTask` leaves a live run with its promise rejected. -/
theorem Whole.throwRun (h : Whole s) (hrun : s.runs[j]? = some run)
    (hlive : run.phase = .signingIn ∨ ∃ request, run.phase = .saving request) (message : String) :
    Whole (s.setRun j (.threw message)) := by
  refine h.setRun hrun ?_ nofun ?_
  · rintro hfinished
    rw [hfinished] at hlive
    rcases hlive with hlive | ⟨_, hlive⟩ <;> cases hlive
  · intro v _ hfits
    refine hfits.move ?_ (.inr ?_) (.inr (.inr ⟨nofun, nofun⟩))
    · rintro hfinished
      rw [hfinished] at hlive
      rcases hlive with hlive | ⟨_, hlive⟩ <;> cases hlive
    · rintro message hthrew
      rw [hthrew] at hlive
      rcases hlive with hlive | ⟨_, hlive⟩ <;> cases hlive

theorem Whole.runFails (h : Whole s) (hrun : s.runs[j]? = some run)
    (hlive : run.phase = .signingIn ∨ ∃ request, run.phase = .saving request) :
    Whole (s.runFails j run message code now) := by
  unfold Process.runFails
  split
  · exact h.throwRun hrun hlive _
  · rename_i haborted
    exact ((h.throwRun hrun hlive message).failRun (setRun_self hrun) nofun nofun nofun
      (Bool.eq_false_iff.mpr haborted) message code now).1

theorem Whole.runSaves (h : Whole s) {token : String} (hrun : s.runs[j]? = some run)
    (hlive : run.phase = .signingIn) : Whole (s.runSaves j run token now) := by
  unfold Process.runSaves
  split
  · exact h.throwRun hrun (.inl hlive) _
  · have hstaged := h.stageRun "saving-token" now hrun (by decide) (.inl hlive)
    refine Whole.send (hstaged.setRun hrun (by rw [hlive]; nofun) (by nofun) ?_) _
    intro v _ hfits
    refine hfits.move (by rw [hlive]; nofun) (.inr (by rw [hlive]; nofun)) ?_
    rcases hfits.live (.inl hlive) with hst | hst
    · exact .inl hst
    · exact .inr (.inl hst)

/-- The token is saved, and the attempt closed as a success. -/
theorem Whole.tokenSaved (h : Whole s) (now : Nat) {request : Nat} (hrun : s.runs[j]? = some run)
    (hphase : run.phase = .saving request) (logFailure : Option String) :
    Whole (match logFailure with
      | none => (s.exec (.markSuccess run.payload.enterpriseId run.payload.taskId
          (some run.payload.oauthAttemptId) now)).setRun j .returned
      | some message => (s.exec (.markSuccess run.payload.enterpriseId run.payload.taskId
          (some run.payload.oauthAttemptId) now)).runFails j run message "token_write_failed" now) := by
  have hreturned : Whole (s.setRun j .returned) := by
    refine h.setRun hrun (by rw [hphase]; nofun) nofun ?_
    intro v _ hfits
    exact hfits.move (by rw [hphase]; nofun) (.inr (by rw [hphase]; nofun))
      (.inr (.inr ⟨nofun, nofun⟩))
  cases logFailure with
  | none => exact hreturned.succeedRun (setRun_self hrun) nofun nofun nofun now
  | some message =>
      have hthrown : ∀ message, Whole ((s.setRun j (.threw message)).exec
          (.markSuccess run.payload.enterpriseId run.payload.taskId
            (some run.payload.oauthAttemptId) now)) := fun message =>
        (h.throwRun hrun (.inr ⟨request, hphase⟩) message).succeedRun (setRun_self hrun) nofun nofun
          nofun now
      dsimp only
      unfold Process.runFails
      split
      · exact hthrown _
      · rename_i haborted
        exact ((hthrown message).failRun (setRun_self hrun) nofun nofun nofun
          (Bool.eq_false_iff.mpr haborted) message "token_write_failed" now).1

theorem Whole.runCaught (h : Whole s) (hrun : s.runs[j]? = some run)
    (hphase : run.phase = .threw message) : Whole (s.runCaught j run message now) := by
  have halive : run.phase ≠ .finished := by
    rw [hphase]
    nofun
  unfold Process.runCaught
  split
  · rename_i haborted
    exact h.setRun hrun halive nofun fun v _ hfits =>
      hfits.move halive (.inl haborted) (.inr (.inr ⟨nofun, nofun⟩))
  · rename_i haborted
    have hclose := h.failRun hrun halive (by rw [hphase]; nofun) (by rw [hphase]; nofun)
      (Bool.eq_false_iff.mpr haborted) message "runner_failed" now
    refine Whole.send (hclose.1.setRun hrun halive (by nofun) ?_) _
    intro v hv _
    exact .of_closed nofun nofun (hclose.2 v hv)

theorem Whole.runFinishes (h : Whole s) (env : Env) (hrun : s.runs[j]? = some run)
    (hphase : run.phase = .caught) : Whole (s.runFinishes env j run now) :=
  (h.toSound.left hrun hphase).drain env now (h.covered.left h.toSound hrun hphase)

theorem Whole.stepRun (h : Whole s) (env : Env) (hrun : s.runs[j]? = some run) {e : Event}
    (he : s.stepRun env j run e = some s') : Whole s' := by
  unfold Process.stepRun at he
  cases e with
  | runStage _ stage now =>
      dsimp only at he
      split at he
      · split at he
        · cases he
        · rename_i hphase hstage
          cases he
          exact h.stageRun stage now hrun hstage (.inl hphase)
      · split at he
        · cases he
        · rename_i request hphase hstage
          cases he
          exact h.stageRun stage now hrun hstage (.inr ⟨request, hphase⟩)
      · cases he
  | deviceFlowSettled _ token now =>
      dsimp only at he
      split at he
      · rename_i hphase
        split at he
        · cases he
          exact h.runSaves hrun hphase
        · cases he
          exact h.runFails hrun (.inl hphase)
      · cases he
  | tokenSaved _ saved logFailure now =>
      dsimp only at he
      split at he
      · rename_i request hphase
        split at he
        · cases he
          exact h.runFails hrun (.inr ⟨request, hphase⟩)
        · have hsaved := h.tokenSaved now hrun hphase logFailure
          cases logFailure with
          | none => cases he; exact hsaved
          | some message => cases he; exact hsaved
      · cases he
  | runCaught _ now =>
      dsimp only at he
      split at he
      · rename_i hphase
        cases he
        refine h.setRun hrun (by rw [hphase]; nofun) nofun ?_
        intro v _ hfits
        exact hfits.move (by rw [hphase]; nofun) (.inr (by rw [hphase]; nofun))
          (.inr (.inr ⟨nofun, nofun⟩))
      · rename_i message hphase
        cases he
        exact h.runCaught hrun hphase
      · cases he
  | runReported _ =>
      dsimp only at he
      split at he
      · rename_i request hphase
        cases he
        refine h.setRun hrun (by rw [hphase]; nofun) nofun ?_
        intro v _ hfits
        exact hfits.move (by rw [hphase]; nofun) (.inr (by rw [hphase]; nofun))
          (.inr (.inr ⟨nofun, nofun⟩))
      · cases he
  | runFinished _ now =>
      dsimp only at he
      split at he
      · rename_i hphase
        cases he
        exact h.runFinishes env hrun hphase
      · cases he
  | _ => cases he

end Runs

/-! ## Cancellations -/

section Cancellations

variable {s s' : Process} {k : Nat} {c : Cancellation} {completion : Option Nat} {now : Nat}

/-- A cancellation that has nothing left to close. -/
theorem Whole.dismiss (h : Whole s) (hk : s.cancellations[k]? = some c)
    (hunfinished : c.phase ≠ .finished)
    (hclosed : (∃ completion, c.phase = .waiting completion) →
      ∀ v, s.db.look c.attemptId = some v → v.status ≠ .cancelling) :
    Whole { s.setCancellation k .leaving with
      cancelled := s.cancelled.erase (c.taskId, c.attemptId) } := by
  refine ⟨h.toSound.setCancellation hk hunfinished _ s.cancelling nofun hclosed ?_ ?_,
    h.covered, h.saturated⟩
  · intro id x hx
    obtain ⟨hne, hold⟩ := Finset.mem_erase.mp hx
    refine ⟨hold, ?_⟩
    rintro rfl rfl
    exact absurd rfl hne
  · exact fun id => ⟨fun hid => ⟨hid, nofun⟩, fun hid => hid.1⟩

theorem settled_run (hsettled : s.settled completion = true) {j : Nat} {run : Run}
    (hcompletion : completion = some j) (hrun : s.runs[j]? = some run) : run.phase = .finished := by
  subst hcompletion
  simpa [Process.settled, hrun] using hsettled

/-- What the awakened cancellation finds. -/
theorem Sound.cancelWakes_eq (h : Sound s) (hk : s.cancellations[k]? = some c) (now : Nat) :
    ∃ v, s.db.look c.attemptId = some v ∧ v.taskId = c.taskId ∧ v.enterpriseId = c.enterpriseId
      ∧ ((v.status ≠ .cancelling ∧ s.cancelWakes k c now =
          { s.setCancellation k .leaving with
            cancelled := s.cancelled.erase (c.taskId, c.attemptId) })
        ∨ (v.status = .cancelling ∧ s.cancelWakes k c now =
            ((s.exec (.markCancelled c.enterpriseId c.taskId (some c.attemptId) now)).setCancellation k
              (.reporting s.outbox.length)).send
                (.markCopilotOauthFailed c.enterpriseId c.identity c.attemptId "Cancelled by request.")
          ∧ s.db.LookSet ((Call.markCancelled c.enterpriseId c.taskId (some c.attemptId) now).exec s.db)
              c.attemptId
              { v with status := .cancelled, stage := some TaskStatus.cancelled.text })) := by
  obtain ⟨v, hv, htask, henterprise, hcurrent, -⟩ := h.closing.stands k c hk
  obtain ⟨record, hget, hrecord⟩ := look_getTask h.stored.orderly.toInv hv hcurrent
  rw [htask, henterprise] at hget
  refine ⟨v, hv, htask, henterprise, ?_⟩
  unfold Process.cancelWakes
  simp only [hget, hrecord.attempt, hrecord.status, decide_true, Bool.and_true, Bool.not_eq_true',
    decide_eq_false_iff_not]
  by_cases hcancelling : v.status = .cancelling
  · refine .inr ⟨hcancelling, if_neg (by simpa using hcancelling), ?_⟩
    rcases finishAttempt_look c.enterpriseId c.taskId c.attemptId .cancelled
      (some "Cancelled by request.") (some "cancelled") now h.stored.orderly hrecord.named with
      ⟨w, ⟨hw, -⟩, hset⟩ | ⟨hnone, -⟩
    · rw [Option.some.inj (hv.symm.trans hw)]
      exact hset
    · exact absurd ⟨hv, htask, henterprise, by rw [hcancelling]; rfl⟩ (hnone v)
  · exact .inl ⟨hcancelling, if_pos hcancelling⟩

theorem Whole.cancelWakes (h : Whole s) (hk : s.cancellations[k]? = some c)
    (hphase : c.phase = .waiting completion) (hsettled : s.settled completion = true) :
    Whole (s.cancelWakes k c now) := by
  have hunfinished : c.phase ≠ .finished := by
    rw [hphase]
    nofun
  obtain ⟨v, hv, htask, henterprise, ⟨hopen, heq⟩ | ⟨hcancelling, heq, hset⟩⟩ :=
    h.toSound.cancelWakes_eq hk now
  · rw [heq]
    refine h.dismiss hk hunfinished fun _ w hw => ?_
    rw [← Option.some.inj (hv.symm.trans hw)]
    exact hopen
  · rw [heq]
    -- The run of the attempt, if there was one, is over.
    have hover : ∀ (j : Nat) run, s.runs[j]? = some run → run.payload.oauthAttemptId = c.attemptId →
        run.phase = .finished := by
      intro j run hrun hown
      by_contra halive
      exact halive (settled_run hsettled
        (h.closing.completion k c completion hk hphase j run hrun hown halive) hrun)
    have hwritten : Whole (s.exec (.markCancelled c.enterpriseId c.taskId (some c.attemptId) now)) := by
      refine ⟨h.toSound.write trivial hv hset ?_ ?_ (fun _ => rfl) nofun ?_,
        h.covered.write hset nofun, h.saturated⟩
      · rintro p hp heq
        obtain ⟨w, hw, -, -, hst, -⟩ := h.line.queued p hp
        rw [heq] at hw
        rw [← Option.some.inj (hv.symm.trans hw), hcancelling] at hst
        cases hst
      · intro j run hrun hown
        have hfinished := hover j run hrun hown
        exact .of_closed (by rw [hfinished]; nofun) (by rw [hfinished]; nofun) rfl
      · intro _ _ k' c' j run hk' hown hwaits hrun
        obtain ⟨w, hw, hwtask, -⟩ := h.closing.stands k' c' hk'
        rw [hown] at hw
        obtain rfl := Option.some.inj (hv.symm.trans hw)
        have hkk := h.closing.single k' k c' c hk' hk (by rw [hwaits]; nofun) hunfinished
          (hwtask.symm.trans htask)
        subst hkk
        obtain rfl : c = c' := Option.some.inj (hk.symm.trans hk')
        exact .inr (settled_run hsettled (CancelPhase.waiting.inj (hphase.symm.trans hwaits)) hrun)
    refine Whole.send ⟨hwritten.toSound.setCancellation hk hunfinished s.cancelled
      s.cancelling (by nofun) ?_ ?_ ?_, hwritten.covered,
      hwritten.saturated⟩ _
    · intro _ w hw
      have hlast := (hset c.attemptId).trans (if_pos rfl)
      rw [← Option.some.inj (hlast.symm.trans hw)]
      nofun
    · exact fun id x hx => ⟨hx, fun _ _ => ⟨_, rfl⟩⟩
    · exact fun id => ⟨fun hid => ⟨hid, by nofun⟩, fun hid => hid.1⟩

theorem Whole.stepCancellation (h : Whole s) (hk : s.cancellations[k]? = some c) {e : Event}
    (he : s.stepCancellation k c e = some s') : Whole s' := by
  unfold Process.stepCancellation at he
  cases e with
  | cancelWoken _ now =>
      dsimp only at he
      split at he
      · rename_i completion hphase
        split at he
        · rename_i hsettled
          cases he
          exact h.cancelWakes hk hphase hsettled
        · cases he
      · cases he
  | cancelReported _ =>
      dsimp only at he
      split at he
      · rename_i request hphase
        cases he
        refine h.dismiss hk (by rw [hphase]; nofun) ?_
        rintro ⟨completion, hwaits⟩
        rw [hphase] at hwaits
        cases hwaits
      · cases he
  | cancelLeft _ =>
      dsimp only at he
      split at he
      · rename_i hphase
        cases he
        refine ⟨h.toSound.setCancellation hk (by rw [hphase]; nofun) s.cancelled _ nofun
          ?_ ?_ ?_, h.covered, h.saturated⟩
        · rintro ⟨completion, hwaits⟩
          rw [hphase] at hwaits
          cases hwaits
        · intro id x hx
          refine ⟨hx, ?_⟩
          rintro rfl rfl
          obtain ⟨k', c', hk', htask, -, hrest⟩ := h.closing.cancelled _ _ hx
          have hunfinished : c'.phase ≠ .finished := by
            rcases hrest with ⟨o, ho⟩ | ⟨q, hq⟩
            · rw [ho]; nofun
            · rw [hq]; nofun
          have hkk := h.closing.single k' k c' c hk' hk hunfinished (by rw [hphase]; nofun) htask
          subst hkk
          obtain rfl : c = c' := Option.some.inj (hk.symm.trans hk')
          rw [hphase] at hrest
          rcases hrest with ⟨o, ho⟩ | ⟨q, hq⟩
          · cases ho
          · cases hq
        · intro id
          rw [Finset.mem_erase]
          exact ⟨fun hid => ⟨hid.2, fun _ => hid.1⟩, fun hid => ⟨hid.2 rfl, hid.1⟩⟩
      · cases he
  | _ => cases he

end Cancellations

/-! ## Every interleaving -/

section Interleavings

variable {env : Env} {s s' : Process} {e : Event}

theorem Whole.step (h : Whole s) (he : s.step env e = some s') : Whole s' := by
  unfold Process.step at he
  cases e with
  | enqueue enterpriseId id request now =>
      dsimp only at he
      split at he
      · rename_i hguard
        simp only [Bool.and_eq_true, decide_eq_true_eq] at hguard
        cases he
        exact h.enqueue env hguard.1 hguard.2
      · cases he
  | cancel enterpriseId id =>
      cases he
      exact h.cancel enterpriseId id
  | updateSettings concurrency now =>
      cases he
      refine Sound.drain env now ⟨{ h.stored with }, { h.line with }, { h.slots with },
        { h.closing with }, { h.retrying with }⟩ h.covered
  | stopAccepting =>
      cases he
      exact ⟨⟨{ h.stored with }, { h.line with }, { h.slots with }, { h.closing with },
        { h.retrying with }⟩, h.covered, nofun⟩
  | retryTask | protectionAnswered | preparationAnswered | releaseAnswered =>
      exact h.stepRetry env he
  | runStage | deviceFlowSettled | tokenSaved | runCaught | runReported | runFinished =>
      obtain ⟨run, hrun, hstep⟩ := Option.bind_eq_some_iff.mp he
      exact h.stepRun env hrun hstep
  | cancelWoken | cancelReported | cancelLeft =>
      obtain ⟨c, hk, hstep⟩ := Option.bind_eq_some_iff.mp he
      exact h.stepCancellation hk hstep

theorem whole_initial (enterprises : List String) (concurrency : Nat) :
    Whole (.initial enterprises concurrency) := by
  have hnone : ∀ x, (Process.initial enterprises concurrency).db.look x = none := fun _ => rfl
  refine ⟨⟨⟨⟨inv_empty enterprises, ?_⟩, orderly_empty enterprises, ?_⟩, ?_, ?_, ?_, ?_⟩, ?_, ?_⟩
  · simp [Process.initial]
  · simp [Process.initial]
  · exact ⟨by simp [Process.initial], Keyed.nil, by simp [Process.initial], List.Sublist.refl _,
      Keyed.nil, by simp [Process.initial], by simp [Process.initial]⟩
  · exact ⟨rfl, by simp [Process.initial], by simp [Process.initial], by simp [Process.initial], rfl,
      rfl, by simp [Process.initial]⟩
  · refine ⟨?_, ?_, ?_, ?_, ?_, ?_, ?_, ?_, ?_⟩ <;> simp [Process.initial, Db.look]
  · refine ⟨?_, ?_⟩ <;> simp [Process.initial]
  · intro x v hv
    rw [hnone] at hv
    cases hv
  · exact fun _ hne => absurd rfl hne

theorem Whole.of_reaches {enterprises : List String} {concurrency : Nat}
    (h : Reaches (Process.step env) (.initial enterprises concurrency) s) : Whole s :=
  h.invariant (whole_initial enterprises concurrency) fun _ _ _ hs he => hs.step he

/-- No report on the attempt is under way, and no callback of it has yet to run. -/
def Process.Reported (s : Process) (x : String) : Prop :=
  (∀ run ∈ s.runs, run.payload.oauthAttemptId = x →
    run.phase = .signingIn ∨ (∃ request, run.phase = .saving request) ∨ run.phase = .finished)
  ∧ ∀ c ∈ s.cancellations, c.attemptId = x → c.phase = .finished ∨
      ∃ completion, c.phase = .waiting completion ∧ s.settled completion = false

/-- A closed attempt has no run and no cancellation left once its report has settled. -/
theorem Sound.closed_finished (h : Sound s) {x : String} {v : AttemptView} (hv : s.db.look x = some v)
    (hclosed : v.status.active = false) (hreported : s.Reported x) :
    (∀ run ∈ s.runs, run.payload.oauthAttemptId = x → run.phase = .finished)
    ∧ ∀ c ∈ s.cancellations, c.attemptId = x → c.phase = .finished := by
  have hruns : ∀ run ∈ s.runs, run.payload.oauthAttemptId = x → run.phase = .finished := by
    intro run hrun hown
    obtain ⟨j, hj⟩ := List.mem_iff_getElem?.mp hrun
    obtain ⟨w, hw, -, -, hfits⟩ := h.slots.stands j run hj
    rw [hown] at hw
    obtain rfl : v = w := Option.some.inj (hv.symm.trans hw)
    have hdone : ¬(run.phase = .signingIn ∨ ∃ request, run.phase = .saving request) := by
      intro hlive
      rcases hfits.live hlive with hst | hst <;> rw [hst] at hclosed <;> cases hclosed
    rcases hreported.1 run hrun hown with hlive | hlive | hfinished
    · exact absurd (.inl hlive) hdone
    · exact absurd (.inr hlive) hdone
    · exact hfinished
  refine ⟨hruns, ?_⟩
  intro c hc hown
  obtain ⟨k, hk⟩ := List.mem_iff_getElem?.mp hc
  rcases hreported.2 c hc hown with hfinished | ⟨completion, hwaits, hunsettled⟩
  · exact hfinished
  · exfalso
    cases completion with
    | none => cases hunsettled
    | some j =>
        obtain ⟨run, hrun, hcases⟩ := h.closing.awaited k c j hk hwaits
        have hunfinished : run.phase ≠ .finished := by
          intro hfinished
          simp [Process.settled, hrun, hfinished] at hunsettled
        rcases hcases with hrunOwn | hfinished | ⟨w, hw, hst⟩
        · exact hunfinished (hruns run (List.mem_of_getElem? hrun) (hrunOwn.trans hown))
        · exact hunfinished hfinished
        · rw [hown] at hw
          rw [Option.some.inj (hv.symm.trans hw), hst] at hclosed
          cases hclosed

/-- In every state of every interleaving: an attempt is run once at most; a run started below the
limit; runs start in the order of the queue, where only an attempt called off is passed over; an
attempt called off before its start is never started, and one called off is never failed but has a
cancellation that closes it; what is stored as queued waits or has a slot, and no slot is idle while
a payload waits; and a closed attempt whose report has settled has no entry of its own left. -/
theorem login_queue {enterprises : List String} {concurrency : Nat}
    (h : Reaches (Process.step env) (.initial enterprises concurrency) s) :
    (s.started.map (·.payload.oauthAttemptId)).Nodup
    ∧ (∀ start ∈ s.started, start.running < start.limit)
    ∧ (s.pushed.map (·.oauthAttemptId)).Nodup
    ∧ (s.started.map (·.payload) ++ s.pending).Sublist s.pushed
    ∧ (∀ p ∈ s.pushed,
        p ∈ s.started.map (·.payload) ∨ p ∈ s.pending ∨ p.oauthAttemptId ∈ s.movedEarly)
    ∧ (∀ x ∈ s.movedEarly, ∀ start ∈ s.started, start.payload.oauthAttemptId ≠ x)
    ∧ (∀ x ∈ s.moved, ∃ v, s.db.look x = some v ∧ (v.status = .cancelled ∨ v.status = .success
        ∨ (v.status = .cancelling ∧ ∃ k c completion, s.cancellations[k]? = some c ∧ c.attemptId = x
            ∧ c.phase = .waiting completion ∧ (s.settled completion = true → ∀ now, ∃ s' w,
                s.step env (.cancelWoken k now) = some s' ∧ s'.db.look x = some w
                ∧ w.status = .cancelled))))
    ∧ (∀ x v, s.db.look x = some v → v.status = .pending → v.stage = some "queued" →
        (∃ p ∈ s.pending, p.oauthAttemptId = x) ∨ v.taskId ∈ s.active)
    ∧ (s.accepting = true → s.pending ≠ [] → s.concurrency ≤ s.active.card)
    ∧ ∀ x v, s.db.look x = some v → v.status.active = false → s.Reported x →
        (∀ id, (id, x) ∉ s.cancelled)
        ∧ (v.taskId ∈ s.active → ∃ run ∈ s.runs, run.phase ≠ .finished
            ∧ run.payload.taskId = v.taskId ∧ run.payload.oauthAttemptId ≠ x)
        ∧ (∀ j, s.controllers v.taskId = some j →
            ∃ run, s.runs[j]? = some run ∧ run.payload.oauthAttemptId ≠ x)
        ∧ (∀ j, s.completions v.taskId = some j →
            ∃ run, s.runs[j]? = some run ∧ run.payload.oauthAttemptId ≠ x)
        ∧ (v.taskId ∈ s.cancelling → ∃ c ∈ s.cancellations, c.phase ≠ .finished
            ∧ c.taskId = v.taskId ∧ c.attemptId ≠ x) := by
  have hwhole := Whole.of_reaches h
  refine ⟨?_, hwhole.slots.limits, hwhole.line.once, hwhole.line.order, hwhole.line.accounted,
    fun x hx => (hwhole.closing.early x hx).2, ?_, ?_, hwhole.saturated, ?_⟩
  · have hstarted := hwhole.line.once.sublist
      ((List.sublist_append_left _ _).trans hwhole.line.order)
    rwa [Keyed, List.map_map] at hstarted
  · intro x hx
    obtain ⟨v, hv, hcalled⟩ := hwhole.closing.moved x hx
    refine ⟨v, hv, ?_⟩
    cases hst : v.status with
    | cancelled => exact .inl rfl
    | success => exact .inr (.inl rfl)
    | pending | running | failed =>
        rw [hst] at hcalled
        cases hcalled
    | cancelling =>
        obtain ⟨k, c, hk, rfl, completion, hphase⟩ := hwhole.closing.waiting x v hv hst
        refine .inr (.inr ⟨rfl, k, c, completion, hk, rfl, hphase, ?_⟩)
        intro hsettled now
        obtain ⟨w, hw, -, -, ⟨hopen, -⟩ | ⟨-, heq, hset⟩⟩ := hwhole.toSound.cancelWakes_eq hk now
        · exact absurd hst (Option.some.inj (hv.symm.trans hw) ▸ hopen)
        · refine ⟨s.cancelWakes k c now,
            { w with status := .cancelled, stage := some TaskStatus.cancelled.text }, ?_, ?_, rfl⟩
          · show (s.cancellations[k]?).bind _ = _
            simp [hk, Process.stepCancellation, hphase, hsettled]
          · rw [heq]
            exact (hset c.attemptId).trans (if_pos rfl)
  · intro x v hv hst hstage
    rcases hwhole.covered x v hv hst hstage with hwaits | ⟨j, run, hrun, rfl, halive⟩
    · exact .inl hwaits
    · obtain ⟨w, hw, htask, -⟩ := hwhole.slots.stands j run hrun
      obtain rfl : v = w := Option.some.inj (hv.symm.trans hw)
      exact .inr ((hwhole.slots.active _).mpr ⟨j, run, hrun, htask.symm, halive⟩)
  · intro x v hv hclosed hreported
    obtain ⟨hruns, hcancellations⟩ := hwhole.toSound.closed_finished hv hclosed hreported
    have hcontrollers : ∀ j, s.controllers v.taskId = some j →
        ∃ run, s.runs[j]? = some run ∧ run.payload.oauthAttemptId ≠ x := by
      intro j hj
      obtain ⟨run, hrun, -, halive⟩ := (hwhole.slots.controllers _ j).mp hj
      exact ⟨run, hrun, fun hown => halive (hruns run (List.mem_of_getElem? hrun) hown)⟩
    refine ⟨?_, ?_, hcontrollers, hwhole.slots.completions ▸ hcontrollers, ?_⟩
    · intro id hmem
      obtain ⟨k, c, hk, -, hown, hrest⟩ := hwhole.closing.cancelled id x hmem
      have hfinished := hcancellations c (List.mem_of_getElem? hk) hown
      rw [hfinished] at hrest
      rcases hrest with ⟨_, hphase⟩ | ⟨_, hphase⟩ <;> cases hphase
    · intro hactive
      obtain ⟨j, run, hrun, hid, halive⟩ := (hwhole.slots.active _).mp hactive
      have hmem := List.mem_of_getElem? hrun
      exact ⟨run, hmem, halive, hid, fun hown => halive (hruns run hmem hown)⟩
    · intro hcancelling
      obtain ⟨k, c, hk, hid, halive⟩ := (hwhole.closing.cancelling _).mp hcancelling
      have hmem := List.mem_of_getElem? hk
      exact ⟨c, hmem, halive, hid, fun hown => halive (hcancellations c hmem hown)⟩

/-! One slot and three accounts: the second attempt is called off while it waits, the third is started
when the first is done. -/

def sampleRequest (identity attemptId : String) : LoginTaskRequest :=
  { identity := identity, ssoUser := identity, ssoPassword := "secret", ghLogin := identity
    oauthAttemptId := attemptId, ssoType := .azure }

def sampleEnv : Env := { outcome := fun _ => .opens, logPath := fun payload => payload.taskId }

def sampleEvents : List Event :=
  [.enqueue "acme" "task-1" (sampleRequest "alice" "attempt-1") 1,
    .enqueue "acme" "task-2" (sampleRequest "bob" "attempt-2") 2,
    .enqueue "acme" "task-3" (sampleRequest "carol" "attempt-3") 3, .cancel "acme" "task-2",
    .deviceFlowSettled 0 (.ok "token") 4, .cancelWoken 0 5, .cancelReported 0,
    .tokenSaved 0 (.ok ()) none 6, .runCaught 0 7, .runFinished 0 8]

def sampleQueue : Process :=
  (sampleEvents.foldlM (Process.step sampleEnv) (.initial ["acme"] 1)).get (by decide +kernel)

theorem login_queue_sample :
    sampleQueue.started.map (·.payload.oauthAttemptId) = ["attempt-1", "attempt-3"]
    ∧ sampleQueue.movedEarly = ["attempt-2"]
    ∧ ∀ x ∈ sampleQueue.movedEarly, ∀ start ∈ sampleQueue.started,
        start.payload.oauthAttemptId ≠ x := by
  have hrun : Reaches (Process.step sampleEnv) (.initial ["acme"] 1) sampleQueue :=
    Reaches.of_foldlM (Option.some_get _).symm
  exact ⟨by decide +kernel, by decide +kernel, (login_queue hrun).2.2.2.2.2.1⟩

end Interleavings

end GhcpConsole.Login
