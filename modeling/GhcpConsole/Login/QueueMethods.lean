import GhcpConsole.Login.QueueThreads

/-!
# The methods of the login queue

Every method of the queue, and every step of a thread of it, keeps the invariant.
-/

namespace GhcpConsole.Login

/-! ## Cancelling -/

section CallingOff

variable {look look' : String → Option AttemptView} {s : Process} {v : AttemptView}
  {x identity : String}

theorem abort_number {id : String} {j : Nat} {run' : Run} : (s.abort id).runs[j]? = some run' ↔
    ∃ run, s.runs[j]? = some run
      ∧ run' = if s.controllers id = some j then { run with aborted := true } else run := by
  unfold Process.abort
  cases hid : s.controllers id with
  | none => simp
  | some i =>
      dsimp only
      rw [getElem?_modify_some]
      simp

theorem callOff_run {enterpriseId id : String} {j : Nat} {run' : Run} :
    (s.callOff enterpriseId id identity x).runs[j]? = some run' ↔
    ∃ run, s.runs[j]? = some run
      ∧ run' = if s.controllers id = some j then { run with aborted := true } else run :=
  abort_number

/-- A cancellation leaves every run where it is, with its payload. -/
theorem callOff_alive {enterpriseId id : String} {j : Nat} {P : Payload → RunPhase → Prop} :
    (∃ run, (s.callOff enterpriseId id identity x).runs[j]? = some run ∧ P run.payload run.phase) ↔
      ∃ run, s.runs[j]? = some run ∧ P run.payload run.phase := by
  constructor
  · rintro ⟨run', hrun', hP⟩
    obtain ⟨run, hrun, rfl⟩ := callOff_run.mp hrun'
    refine ⟨run, hrun, ?_⟩
    split at hP <;> exact hP
  · rintro ⟨run, hrun, hP⟩
    refine ⟨_, callOff_run.mpr ⟨run, hrun, rfl⟩, ?_⟩
    split <;> exact hP

theorem callOff_map {enterpriseId id : String} {β : Type} {g : Run → β}
    (hg : ∀ run, g { run with aborted := true } = g run) :
    (s.callOff enterpriseId id identity x).runs.map g = s.runs.map g := by
  show (s.abort id).runs.map g = _
  unfold Process.abort
  cases s.controllers id with
  | none => rfl
  | some j => exact map_modify_same hg

/-- What is asked of the task and its attempt `x` that are called off. -/
structure CalledOff (look look' : String → Option AttemptView) (x : String) (v : AttemptView) :
    Prop where
  found : look x = some v
  current : v.current = true
  set : ∀ z, look' z =
    if z = x then some { v with status := .cancelling, stage := v.stage } else look z
  /-- The task has no other attempt that is its current one or active. -/
  alone : ∀ y w, look y = some w → w.taskId = v.taskId →
    w.current = true ∨ w.status.active = true → y = x

theorem CalledOff.line (hoff : CalledOff look look' x v) (h : Line look s) :
    Line look' (s.callOff v.enterpriseId v.taskId identity x) := by
  have hpending : ∀ {p}, p ∈ s.pending.eraseP (·.taskId == v.taskId) ↔
      p ∈ s.pending ∧ p.taskId ≠ v.taskId := h.tasks.mem_eraseP
  have hown : ∀ p ∈ s.pending, p.taskId = v.taskId → p.oauthAttemptId = x := by
    intro p hp htask
    obtain ⟨w, hw, hwtask, -, hst, -⟩ := h.queued p hp
    exact hoff.alone _ w hw (hwtask.trans htask) (.inr (by simp [hst, TaskStatus.active]))
  refine { h with
    queued := ?_, tasks := ?_, idle := ?_, order := ?_, known := ?_, accounted := ?_ }
  · intro p hp
    obtain ⟨hp, hne⟩ := hpending.mp hp
    refine (h.queued p hp).set hoff.found hoff.set fun heq _ => ?_
    obtain ⟨w, hw, htask, -⟩ := h.queued p hp
    obtain rfl : v = w := Option.some.inj (hoff.found.symm.trans (heq ▸ hw))
    exact absurd htask.symm hne
  · exact h.tasks.sublist List.eraseP_sublist
  · exact fun p hp => h.idle p (hpending.mp hp).1
  · exact ((List.Sublist.refl _).append List.eraseP_sublist).trans h.order
  · exact fun p hp => ⟨(h.known p hp).1, look_set_ne_none hoff.set (h.known p hp).2⟩
  · intro p hp
    rcases h.accounted p hp with hstarted | hwaits | hmoved
    · exact .inl hstarted
    · by_cases htask : p.taskId = v.taskId
      · have hx := hown p hwaits htask
        have hunstarted : ¬s.started.any (·.payload.oauthAttemptId == x) = true := by
          rw [← hx]
          simpa using h.unstarted hwaits
        refine .inr (.inr ?_)
        show _ ∈ s.movedEarly ++ ite _ _ _
        rw [if_neg hunstarted, hx]
        exact List.mem_append_right _ (List.mem_singleton.mpr rfl)
      · exact .inr (.inl (hpending.mpr ⟨hwaits, htask⟩))
    · exact .inr (.inr (List.mem_append_left _ hmoved))

theorem CalledOff.slots (hoff : CalledOff look look' x v) (h : Slots look s) :
    Slots look' (s.callOff v.enterpriseId v.taskId identity x) := by
  refine { h with payloads := ?_, stands := ?_, active := ?_, controllers := ?_, running := ?_ }
  · exact (callOff_map fun _ => rfl).trans h.payloads
  · intro j run' hrun'
    obtain ⟨run, hrun, rfl⟩ := callOff_run.mp hrun'
    obtain ⟨w, hw, htask, henterprise, hfits⟩ := h.stands j run hrun
    rw [apply_ite Run.payload, ite_self]
    by_cases hown : run.payload.oauthAttemptId = x
    · -- The run of the attempt is told to stop if it is under way.
      obtain rfl : v = w := Option.some.inj (hoff.found.symm.trans (hown ▸ hw))
      refine ⟨_, (hoff.set _).trans (if_pos hown), htask, henterprise, fun _ => .inr rfl, ?_, nofun⟩
      intro _ halive
      rw [apply_ite Run.phase, ite_self] at halive
      have hcontroller := (h.controllers v.taskId j).mpr ⟨run, hrun, htask.symm, halive⟩
      rw [if_pos hcontroller]
    · -- A run of another attempt of the task is only finishing.
      refine ⟨w, (hoff.set _).trans ((if_neg hown).trans hw), htask, henterprise, ?_⟩
      by_cases hcontroller : s.controllers v.taskId = some j
      · obtain ⟨run₀, hrun₀, hid, -⟩ := (h.controllers _ j).mp hcontroller
        obtain rfl : run = run₀ := Option.some.inj (hrun.symm.trans hrun₀)
        have hpast : w.status ≠ .pending := fun hst =>
          hown (hoff.alone _ w hw (htask.trans hid) (.inr (by simp [hst, TaskStatus.active])))
        rw [if_pos hcontroller]
        exact ⟨hfits.live, fun _ _ => rfl, fun hst => absurd hst hpast⟩
      · rw [if_neg hcontroller]
        exact hfits
  · intro id
    show id ∈ s.active ↔ _
    rw [h.active]
    exact exists_congr fun j =>
      (callOff_alive (P := fun p phase => p.taskId = id ∧ phase ≠ .finished)).symm
  · intro id j
    show s.controllers id = some j ↔ _
    rw [h.controllers]
    exact (callOff_alive (P := fun p phase => p.taskId = id ∧ phase ≠ .finished)).symm
  · have hcount : ∀ s : Process, s.running = (s.runs.map (·.phase)).countP (· ≠ .finished) :=
      fun s => by rw [List.countP_map]; rfl
    rw [hcount, callOff_map fun _ => rfl, ← hcount]
    exact h.running

/-- The cancellations after a call of `cancel` are those before and, where none was under way for
the task, one that waits for the run of the task. -/
theorem callOff_cancellation {enterpriseId id : String} {k : Nat} {c : Cancellation} :
    (s.callOff enterpriseId id identity x).cancellations[k]? = some c ↔
      s.cancellations[k]? = some c
      ∨ (id ∉ s.cancelling ∧ k = s.cancellations.length
        ∧ { enterpriseId := enterpriseId, taskId := id, identity := identity, attemptId := x
            phase := .waiting (s.completions id) } = c) := by
  show (if id ∈ s.cancelling then s.cancellations else s.cancellations ++
    [{ enterpriseId := enterpriseId, taskId := id, identity := identity, attemptId := x
       phase := .waiting (s.completions id) }])[k]? = some c ↔ _
  split
  · simp [*]
  · rw [getElem?_concat]
    simp [*]

theorem CalledOff.closing (hoff : CalledOff look look' x v) (h : Closing look s)
    (hslots : Slots look s) (hactive : v.status.active = true) :
    Closing look' (s.callOff v.enterpriseId v.taskId identity x) := by
  -- A cancellation of the task under way is one of this attempt, which it has not closed.
  have hwaiting : v.taskId ∈ s.cancelling → ∃ (k : Nat) (c : Cancellation),
      s.cancellations[k]? = some c ∧ c.attemptId = x ∧ ∃ completion, c.phase = .waiting completion := by
    intro hid
    obtain ⟨k, c, hk, htask, -⟩ := (h.cancelling _).mp hid
    obtain ⟨w, hw, hwtask, -, hwcurrent, hcalled⟩ := h.stands k c hk
    have hx := hoff.alone _ w hw (hwtask.trans htask) (.inl hwcurrent)
    obtain rfl : v = w := Option.some.inj (hoff.found.symm.trans (hx ▸ hw))
    refine h.waiting x v hoff.found ?_
    exact TaskStatus.cancelling_of_calledOff hcalled hactive
  have hthread : ∃ (k : Nat) (c : Cancellation),
      (s.callOff v.enterpriseId v.taskId identity x).cancellations[k]? = some c ∧ c.taskId = v.taskId
        ∧ c.attemptId = x ∧ ∃ completion, c.phase = .waiting completion := by
    by_cases hid : v.taskId ∈ s.cancelling
    · obtain ⟨k, c, hk, hx, hphase⟩ := hwaiting hid
      obtain ⟨w, hw, hwtask, -⟩ := h.stands k c hk
      obtain rfl : v = w := Option.some.inj (hoff.found.symm.trans (hx ▸ hw))
      exact ⟨k, c, callOff_cancellation.mpr (.inl hk), hwtask.symm, hx, hphase⟩
    · exact ⟨_, _, callOff_cancellation.mpr (.inr ⟨hid, rfl, rfl⟩), rfl, rfl, _, rfl⟩
  have hset : ∀ {c : Cancellation}, (∃ w, look c.attemptId = some w ∧ w.status = .cancelling) →
      ∃ w, look' c.attemptId = some w ∧ w.status = .cancelling := fun hw =>
    look_set_imp (Q := fun w => w.status = .cancelling) hoff.found hoff.set (fun _ => rfl) hw
  refine ⟨?_, ?_, ?_, ?_, ?_, ?_, ?_, ?_, ?_⟩
  · intro k c hk
    rcases callOff_cancellation.mp hk with hold | ⟨-, -, rfl⟩
    · exact (h.stands k c hold).set hoff.found hoff.set fun _ hP => ⟨hP.1, rfl⟩
    · exact ⟨_, (hoff.set x).trans (if_pos rfl), rfl, rfl, hoff.current, rfl⟩
  · intro k k' c c' hk hk' halive halive' htask
    rcases callOff_cancellation.mp hk with hold | ⟨hid, rfl, rfl⟩
    · rcases callOff_cancellation.mp hk' with hold' | ⟨hid, rfl, rfl⟩
      · exact h.single k k' c c' hold hold' halive halive' htask
      · exact absurd ((h.cancelling _).mpr ⟨k, c, hold, htask, halive⟩) hid
    · rcases callOff_cancellation.mp hk' with hold' | ⟨-, rfl, -⟩
      · exact absurd ((h.cancelling _).mpr ⟨k', c', hold', htask.symm, halive'⟩) hid
      · rfl
  · intro id
    show id ∈ insert v.taskId s.cancelling ↔ _
    rw [Finset.mem_insert, h.cancelling]
    constructor
    · rintro (rfl | ⟨k, c, hk, hid, halive⟩)
      · obtain ⟨k, c, hk, htask, -, o, hphase⟩ := hthread
        exact ⟨k, c, hk, htask, by simp [hphase]⟩
      · exact ⟨k, c, callOff_cancellation.mpr (.inl hk), hid, halive⟩
    · rintro ⟨k, c, hk, hid, halive⟩
      rcases callOff_cancellation.mp hk with hold | ⟨-, -, rfl⟩
      · exact .inr ⟨k, c, hold, hid, halive⟩
      · exact .inl hid.symm
  · intro id y hy
    rcases Finset.mem_insert.mp hy with heq | hold
    · obtain ⟨rfl, rfl⟩ := Prod.mk.inj heq
      obtain ⟨k, c, hk, htask, hx, hphase⟩ := hthread
      exact ⟨k, c, hk, htask, hx, .inl hphase⟩
    · obtain ⟨k, c, hk, hrest⟩ := h.cancelled id y hold
      exact ⟨k, c, callOff_cancellation.mpr (.inl hk), hrest⟩
  · intro y w hw hst
    rcases look_set_cases hoff.set hw with ⟨rfl, -⟩ | ⟨-, hold⟩
    · obtain ⟨k, c, hk, -, hx, hphase⟩ := hthread
      exact ⟨k, c, hk, hx, hphase⟩
    · obtain ⟨k, c, hk, hrest⟩ := h.waiting y w hold hst
      exact ⟨k, c, callOff_cancellation.mpr (.inl hk), hrest⟩
  · intro k c o hk hphase j run' hrun' hown halive
    obtain ⟨run, hrun, hown, halive⟩ := (callOff_alive (P := fun p phase =>
      p.oauthAttemptId = c.attemptId ∧ phase ≠ .finished)).mp ⟨run', hrun', hown, halive⟩
    rcases callOff_cancellation.mp hk with hold | ⟨-, -, rfl⟩
    · exact h.completion k c o hold hphase j run hrun hown halive
    · obtain ⟨w, hw, htask, -⟩ := hslots.stands j run hrun
      rw [hown] at hw
      obtain rfl : v = w := Option.some.inj (hoff.found.symm.trans hw)
      obtain rfl := CancelPhase.waiting.inj hphase
      rw [hslots.completions]
      exact (hslots.controllers _ j).mpr ⟨run, hrun, htask.symm, halive⟩
  · intro k c j hk hphase
    have hkeeps : ∀ {P : Payload → RunPhase → Prop},
        (∃ run, s.runs[j]? = some run ∧ P run.payload run.phase) →
        ∃ run, (s.callOff v.enterpriseId v.taskId identity x).runs[j]? = some run
          ∧ P run.payload run.phase := callOff_alive.mpr
    rcases callOff_cancellation.mp hk with hold | ⟨-, -, rfl⟩
    · obtain ⟨run, hrun, hcases⟩ := h.awaited k c j hold hphase
      refine hkeeps (P := fun p phase => p.oauthAttemptId = c.attemptId ∨ phase = .finished
        ∨ ∃ w, look' c.attemptId = some w ∧ w.status = .cancelling) ⟨run, hrun, ?_⟩
      rcases hcases with hown | hfinished | hcancelling
      · exact .inl hown
      · exact .inr (.inl hfinished)
      · exact .inr (.inr (hset hcancelling))
    · obtain hcompletion := CancelPhase.waiting.inj hphase
      rw [hslots.completions] at hcompletion
      obtain ⟨run, hrun, -⟩ := (hslots.controllers _ j).mp hcompletion
      exact hkeeps (P := fun p phase => p.oauthAttemptId = x ∨ phase = .finished
        ∨ ∃ w, look' x = some w ∧ w.status = .cancelling)
        ⟨run, hrun, .inr (.inr ⟨_, (hoff.set x).trans (if_pos rfl), rfl⟩)⟩
  · intro y hy
    rcases List.mem_append.mp hy with hold | hnew
    · exact look_set_imp (Q := fun w => w.status.calledOff = true) hoff.found hoff.set
        (fun _ => rfl) (h.moved y hold)
    · obtain rfl := List.mem_singleton.mp hnew
      exact ⟨_, (hoff.set y).trans (if_pos rfl), rfl⟩
  · intro y hy
    rcases List.mem_append.mp hy with hold | hnew
    · obtain ⟨hmoved, hstarted⟩ := h.early y hold
      exact ⟨List.mem_append_left _ hmoved, hstarted⟩
    · by_cases hstarted : s.started.any (·.payload.oauthAttemptId == x) = true
      · rw [if_pos hstarted] at hnew
        cases hnew
      · rw [if_neg hstarted] at hnew
        obtain rfl := List.mem_singleton.mp hnew
        refine ⟨List.mem_append_right _ (List.mem_singleton.mpr rfl), ?_⟩
        intro start hstart heq
        exact hstarted (List.any_eq_true.mpr ⟨start, hstart, by simp [heq]⟩)

theorem CalledOff.retrying (hoff : CalledOff look look' x v) (h : Retrying look s) :
    Retrying look' (s.callOff v.enterpriseId v.taskId identity x) :=
  { h.set hoff.set with }

end CallingOff

section Cancel

variable {s : Process} {enterpriseId id : String}

/-- A cancellation changes no attempt, or calls the current one of the task off. -/
theorem cancel_cases (h : Stored s) (enterpriseId id : String) :
    (((Call.requestCancellation enterpriseId id).exec s.db).look = s.db.look
      ∧ s.cancel enterpriseId id = s.exec (.requestCancellation enterpriseId id))
    ∨ ∃ x v identity, CalledOff s.db.look ((Call.requestCancellation enterpriseId id).exec s.db).look x v
      ∧ v.status.active = true ∧ v.enterpriseId = enterpriseId ∧ v.taskId = id
      ∧ s.cancel enterpriseId id
        = (s.exec (.requestCancellation enterpriseId id)).callOff enterpriseId id identity x := by
  rcases requestCancellation_look enterpriseId id h.orderly with ⟨-, heq⟩ |
    ⟨x, v, record, hv, htask, henterprise, hcurrent, hset, hresult, hrecord⟩
  · left
    refine ⟨?_, by simp [Process.cancel, heq]⟩
    show (s.db.requestCancellation enterpriseId id).2.look = _
    rw [heq]
  · have hstatus : record.status = cancelRequested v.status := hrecord.status
    cases hactive : v.status.active with
    | false =>
        have hsame : cancelRequested v.status = v.status := by simp [cancelRequested, hactive]
        have hne : record.status ≠ .cancelling := by
          rw [hstatus, hsame]
          intro heq
          rw [heq] at hactive
          cases hactive
        refine .inl ⟨?_, by simp [Process.cancel, hresult, hne]⟩
        funext y
        show (s.db.requestCancellation enterpriseId id).2.look y = _
        rw [hset y, hsame]
        split
        · rename_i hy
          rw [hy, hv]
        · rfl
    | true =>
        have hsame : cancelRequested v.status = .cancelling := by simp [cancelRequested, hactive]
        refine .inr ⟨x, v, record.identity, ⟨hv, hcurrent, ?_, ?_⟩, hactive, henterprise, htask, ?_⟩
        · intro z
          rw [← hsame]
          exact hset z
        · intro y w hw hwtask hor
          have hwcurrent : w.current = true :=
            hor.elim (fun hc => hc) (h.orderly.current_of_active hw)
          exact current_unique h.orderly.toInv hw hv hwcurrent hcurrent hwtask
        · simp [Process.cancel, hresult, hstatus, hsame, hrecord.attempt, truthy_some hrecord.named]

theorem Sound.cancel (h : Sound s) (enterpriseId id : String) : Sound (s.cancel enterpriseId id) := by
  have hc : (Call.requestCancellation enterpriseId id).Admissible (s.db :: s.past) := trivial
  rcases cancel_cases h.stored enterpriseId id with ⟨hlook, heq⟩ |
    ⟨x, v, identity, hoff, hactive, rfl, rfl, heq⟩
  · rw [heq]
    exact h.same hc hlook
  · rw [heq]
    refine ⟨{ h.stored.exec hc with }, hoff.line ?_, hoff.slots ?_, hoff.closing ?_ ?_ hactive,
      hoff.retrying ?_⟩
    · exact { h.line with }
    · exact { h.slots with }
    · exact { h.closing with }
    · exact { h.slots with }
    · exact { h.retrying with }

theorem Covered.same {c : Call} (h : Covered s) (hlook : (c.exec s.db).look = s.db.look) :
    Covered (s.exec c) := by
  intro x v hv hst hstage
  exact h x v (hlook ▸ hv) hst hstage

theorem Covered.cancel (hs : Sound s) (h : Covered s) (enterpriseId id : String) :
    Covered (s.cancel enterpriseId id) := by
  rcases cancel_cases hs.stored enterpriseId id with ⟨hlook, heq⟩ |
    ⟨x, v, identity, hoff, hactive, rfl, rfl, heq⟩
  · rw [heq]
    exact h.same hlook
  · rw [heq]
    intro y w hw hst hstage
    rcases look_set_cases hoff.set hw with ⟨rfl, rfl⟩ | ⟨hne, hold⟩
    · cases hst
    · rcases h y w hold hst hstage with ⟨p, hp, rfl⟩ | ⟨j, hrun⟩
      · refine .inl ⟨p, hs.line.tasks.mem_eraseP.mpr ⟨hp, ?_⟩, rfl⟩
        intro htask
        obtain ⟨u, hu, hutask, -, hust, -⟩ := hs.line.queued p hp
        exact hne (hoff.alone _ u hu (hutask.trans htask) (.inr (by simp [hust, TaskStatus.active])))
      · exact .inr ⟨j, (callOff_alive (P := fun p phase =>
          p.oauthAttemptId = y ∧ phase ≠ .finished)).mpr hrun⟩

theorem Saturated.cancel (hs : Stored s) (h : Saturated s) (enterpriseId id : String) :
    Saturated (s.cancel enterpriseId id) := by
  rcases cancel_cases hs enterpriseId id with ⟨-, heq⟩ | ⟨x, v, identity, -, -, -, -, heq⟩
  · rw [heq]
    exact h
  · rw [heq]
    intro haccepting hpending
    refine h haccepting fun hnil => hpending ?_
    show s.pending.eraseP _ = []
    rw [hnil]
    rfl

end Cancel

/-! ## A run writes its attempt -/

section RunWrites

variable {s : Process} {c : Call} {j : Nat} {run : Run} {x : String} {v : AttemptView}
  {status : TaskStatus} {stage : Option String}

theorem Covered.write (h : Covered s)
    (hset : s.db.LookSet (c.exec s.db) x { v with status := status, stage := stage })
    (hstatus : status ≠ .pending) : Covered (s.exec c) := by
  intro y w hw hst hstage
  rcases look_set_cases hset hw with ⟨rfl, rfl⟩ | ⟨-, hold⟩
  · exact absurd hst hstatus
  · exact h y w hold hst hstage

theorem Sound.run_started (h : Sound s) (hrun : s.runs[j]? = some run) :
    ∃ start ∈ s.started, start.payload = run.payload := by
  have hmem : run.payload ∈ s.started.map (·.payload) := by
    rw [← h.slots.payloads]
    exact List.mem_map_of_mem (List.mem_of_getElem? hrun)
  simpa using hmem

theorem Sound.run_named (h : Sound s) (hrun : s.runs[j]? = some run) :
    run.payload.oauthAttemptId ≠ "" := by
  obtain ⟨start, hstart, heq⟩ := h.run_started hrun
  refine (h.line.known run.payload ?_).1
  refine h.line.order.subset (List.mem_append_left _ ?_)
  rw [← heq]
  exact List.mem_map_of_mem hstart

/-- No payload of the attempt of a run waits. -/
theorem Sound.run_line (h : Sound s) (hrun : s.runs[j]? = some run) :
    ∀ p ∈ s.pending, p.oauthAttemptId ≠ run.payload.oauthAttemptId := by
  intro p hp heq
  obtain ⟨start, hstart, hpayload⟩ := h.run_started hrun
  rw [← hpayload] at heq
  exact h.line.unstarted hp start hstart heq.symm

/-- The attempt of a run has no other run. -/
theorem Sound.only_run (h : Sound s) (hrun : s.runs[j]? = some run) {i : Nat} {r : Run}
    (hr : s.runs[i]? = some r) (hown : r.payload.oauthAttemptId = run.payload.oauthAttemptId) :
    r = run := by
  have hkeys : (s.runs.map (·.payload.oauthAttemptId)).Nodup := by
    have hstarted := h.line.once.sublist ((List.sublist_append_left _ _).trans h.line.order)
    rw [← h.slots.payloads, Keyed, List.map_map] at hstarted
    exact hstarted
  exact List.inj_on_of_nodup_map hkeys (List.mem_of_getElem? hr) (List.mem_of_getElem? hrun) hown

/-- The run of an active attempt writes it. -/
theorem Sound.writeRun (h : Sound s) (hrun : s.runs[j]? = some run) (hc : c.Admissible (s.db :: s.past))
    (hv : s.db.look run.payload.oauthAttemptId = some v)
    (hset : s.db.LookSet (c.exec s.db) run.payload.oauthAttemptId
      { v with status := status, stage := stage })
    (halive : run.phase ≠ .finished) (hfits : run.Fits status)
    (hcalled : v.status.calledOff = true → status.calledOff = true)
    (hcancelling : status = .cancelling → v.status = .cancelling) : Sound (s.exec c) := by
  refine h.write hc hv hset (h.run_line hrun) ?_ hcalled hcancelling ?_
  · intro i r hr hown
    rw [h.only_run hrun hr hown]
    exact hfits
  · intro _ _ k thread i r hk hown hphase hr
    obtain ⟨rfl⟩ := Option.some.inj
      (h.closing.completion k thread (some i) hk hphase j run hrun hown.symm halive)
    rw [Option.some.inj (hr.symm.trans hrun)]
    exact .inl rfl

/-- The run of an attempt closes it, which it does not as failed once it is told to stop. -/
theorem Sound.closeRun (h : Sound s) (hrun : s.runs[j]? = some run) {status : FinishedStatus}
    {reason code : Option String} {now : Nat} (hc : c.Admissible (s.db :: s.past))
    (hexec : c.exec s.db = (s.db.finishAttempt run.payload.enterpriseId run.payload.taskId
      (some run.payload.oauthAttemptId) status reason code now).2)
    (halive : run.phase ≠ .finished) (hfits : run.Fits status.status)
    (hfailed : status = .failed → run.aborted = false) :
    Sound (s.exec c) ∧ (Covered s → Covered (s.exec c))
      ∧ ∀ v, (s.exec c).db.look run.payload.oauthAttemptId = some v → v.status.active = false := by
  have hclosed : status.status.active = false := by cases status <;> rfl
  obtain ⟨v, hv, htask, henterprise, hold⟩ := h.slots.stands j run hrun
  rcases finishAttempt_look run.payload.enterpriseId run.payload.taskId run.payload.oauthAttemptId
    status reason code now h.stored.orderly (h.run_named hrun) with
    ⟨w, ⟨hw, -, -, hactive⟩, hset⟩ | ⟨hnone, hsame⟩
  · obtain rfl : v = w := Option.some.inj (hv.symm.trans hw)
    rw [← hexec] at hset
    refine ⟨h.writeRun hrun hc hv hset halive hfits ?_ ?_, fun hcovered => hcovered.write hset ?_, ?_⟩
    · intro hcalled
      have haborted := hold.aborted (TaskStatus.cancelling_of_calledOff hcalled hactive) halive
      cases status with
      | failed =>
          rw [hfailed rfl] at haborted
          cases haborted
      | success | cancelled => rfl
    · intro heq
      rw [heq] at hclosed
      cases hclosed
    · intro heq
      rw [heq] at hclosed
      cases hclosed
    · intro u hu
      have hlast := (hset run.payload.oauthAttemptId).trans (if_pos rfl)
      rw [← Option.some.inj (hlast.symm.trans hu)]
      exact hclosed
  · rw [← hexec] at hsame
    have hlook : (c.exec s.db).look = s.db.look := by rw [hsame]
    refine ⟨h.same hc hlook, fun hcovered => hcovered.same hlook, ?_⟩
    intro u hu
    have hu' : s.db.look run.payload.oauthAttemptId = some u := hlook ▸ hu
    obtain rfl : v = u := Option.some.inj (hv.symm.trans hu')
    cases hactive : v.status.active with
    | false => rfl
    | true => exact absurd ⟨hv, htask, henterprise, hactive⟩ (hnone v)

end RunWrites

end GhcpConsole.Login
