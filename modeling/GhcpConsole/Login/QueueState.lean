import GhcpConsole.Lib.Numbered
import GhcpConsole.Login.Attempts
import GhcpConsole.Login.Queue

/-!
# The state of the login queue

The invariant of the queue: its pending list holds attempts that are stored as pending, its runs
are the runs it has started, and the four collections keyed by task say which of them and which
cancellations are under way. Every method is a composition of a few changes, and each change has
one lemma here.
-/

namespace GhcpConsole.Login

/-! ## The invariant -/

/-- What an attempt that was moved to `cancelling` can be. -/
def TaskStatus.calledOff : TaskStatus → Bool
  | .cancelling | .cancelled | .success => true
  | _ => false

theorem TaskStatus.cancelling_of_calledOff {status : TaskStatus} (hcalled : status.calledOff = true)
    (hactive : status.active = true) : status = .cancelling := by
  cases status with
  | cancelling => rfl
  | pending | running | failed => cases hcalled
  | success | cancelled => cases hactive

/-- How an attempt can be stored at that point of its run. -/
structure Run.Fits (run : Run) (status : TaskStatus) : Prop where
  live : run.phase = .signingIn ∨ (∃ request, run.phase = .saving request) →
    status = .running ∨ status = .cancelling
  aborted : status = .cancelling → run.phase ≠ .finished → run.aborted = true
  unstarted : status = .pending → run.aborted = false ∧ ∃ message, run.phase = .threw message

/-- A run that has done with its attempt leaves it closed. -/
theorem Run.Fits.of_closed {run : Run} {status : TaskStatus} (hsigning : run.phase ≠ .signingIn)
    (hsaving : ∀ request, run.phase ≠ .saving request) (hclosed : status.active = false) :
    run.Fits status := by
  refine ⟨?_, ?_, ?_⟩
  · rintro (hlive | ⟨request, hlive⟩)
    · exact absurd hlive hsigning
    · exact absurd hlive (hsaving request)
  · rintro rfl
    cases hclosed
  · rintro rfl
    cases hclosed

/-- The attempt `x` is stored as one of that task and enterprise, with `P`. -/
def Stands (look : String → Option AttemptView) (taskId enterpriseId x : String)
    (P : AttemptView → Prop) : Prop :=
  ∃ v, look x = some v ∧ v.taskId = taskId ∧ v.enterpriseId = enterpriseId ∧ P v

structure Stored (s : Process) : Prop where
  runInv : RunInv s.db (s.db :: s.past)
  orderly : Orderly s.db
  read : ∀ (i : Nat) r task, s.retries[i]? = some r → r.phase = .protecting task →
    ∃ db ∈ s.db :: s.past, db.getTask r.enterpriseId r.id = some task

/-- The pending list. -/
structure Line (look : String → Option AttemptView) (s : Process) : Prop where
  queued : ∀ p ∈ s.pending, Stands look p.taskId p.enterpriseId p.oauthAttemptId fun v =>
    v.status = .pending ∧ v.stage = some "queued"
  tasks : Keyed (·.taskId) s.pending
  idle : ∀ p ∈ s.pending, p.taskId ∉ s.active
  order : (s.started.map (·.payload) ++ s.pending).Sublist s.pushed
  once : Keyed (·.oauthAttemptId) s.pushed
  known : ∀ p ∈ s.pushed, p.oauthAttemptId ≠ "" ∧ look p.oauthAttemptId ≠ none
  accounted : ∀ p ∈ s.pushed,
    p ∈ s.started.map (·.payload) ∨ p ∈ s.pending ∨ p.oauthAttemptId ∈ s.movedEarly

/-- The runs, with `active`, `controllers` and `completions`. -/
structure Slots (look : String → Option AttemptView) (s : Process) : Prop where
  payloads : s.runs.map (·.payload) = s.started.map (·.payload)
  stands : ∀ (j : Nat) run, s.runs[j]? = some run →
    Stands look run.payload.taskId run.payload.enterpriseId run.payload.oauthAttemptId fun v =>
      run.Fits v.status
  active : ∀ id, id ∈ s.active ↔
    ∃ (j : Nat) (run : Run), s.runs[j]? = some run ∧ run.payload.taskId = id ∧ run.phase ≠ .finished
  controllers : ∀ id j, s.controllers id = some j ↔
    ∃ run, s.runs[j]? = some run ∧ run.payload.taskId = id ∧ run.phase ≠ .finished
  completions : s.completions = s.controllers
  running : s.running = s.active.card
  limits : ∀ start ∈ s.started, start.running < start.limit

/-- The cancellations, with `cancelled` and `cancelling`. -/
structure Closing (look : String → Option AttemptView) (s : Process) : Prop where
  stands : ∀ (k : Nat) c, s.cancellations[k]? = some c →
    Stands look c.taskId c.enterpriseId c.attemptId fun v =>
      v.current = true ∧ v.status.calledOff = true
  single : ∀ (k k' : Nat) c c', s.cancellations[k]? = some c → s.cancellations[k']? = some c' →
    c.phase ≠ .finished → c'.phase ≠ .finished → c.taskId = c'.taskId → k = k'
  cancelling : ∀ id, id ∈ s.cancelling ↔ ∃ (k : Nat) (c : Cancellation),
    s.cancellations[k]? = some c ∧ c.taskId = id ∧ c.phase ≠ .finished
  cancelled : ∀ id x, (id, x) ∈ s.cancelled → ∃ (k : Nat) (c : Cancellation),
    s.cancellations[k]? = some c ∧ c.taskId = id ∧ c.attemptId = x
      ∧ ((∃ completion, c.phase = .waiting completion) ∨ ∃ request, c.phase = .reporting request)
  waiting : ∀ x v, look x = some v → v.status = .cancelling → ∃ (k : Nat) (c : Cancellation),
    s.cancellations[k]? = some c ∧ c.attemptId = x ∧ ∃ completion, c.phase = .waiting completion
  completion : ∀ (k : Nat) c o, s.cancellations[k]? = some c → c.phase = .waiting o →
    ∀ (j : Nat) run, s.runs[j]? = some run → run.payload.oauthAttemptId = c.attemptId →
      run.phase ≠ .finished → o = some j
  awaited : ∀ (k : Nat) c j, s.cancellations[k]? = some c → c.phase = .waiting (some j) →
    ∃ run, s.runs[j]? = some run ∧ (run.payload.oauthAttemptId = c.attemptId
      ∨ run.phase = .finished ∨ ∃ v, look c.attemptId = some v ∧ v.status = .cancelling)
  moved : ∀ x ∈ s.moved, ∃ v, look x = some v ∧ v.status.calledOff = true
  early : ∀ x ∈ s.movedEarly, x ∈ s.moved ∧ ∀ start ∈ s.started, start.payload.oauthAttemptId ≠ x

/-- The retries Proxy prepares. -/
structure Retrying (look : String → Option AttemptView) (s : Process) : Prop where
  preparing : ∀ (i : Nat) r task reserved x request, s.retries[i]? = some r →
    r.phase = .preparing task reserved x request →
      x ≠ "" ∧ look x ≠ none ∧ ∀ p ∈ s.pushed, p.oauthAttemptId ≠ x
  apart : ∀ (i i' : Nat) r r' task task' reserved reserved' x request request',
    s.retries[i]? = some r → r.phase = .preparing task reserved x request →
    s.retries[i']? = some r' → r'.phase = .preparing task' reserved' x request' → i = i'

structure Sound (s : Process) : Prop where
  stored : Stored s
  line : Line s.db.look s
  slots : Slots s.db.look s
  closing : Closing s.db.look s
  retrying : Retrying s.db.look s

/-- The attempt waits in the queue or is of a run under way. -/
def Covers (s : Process) (x : String) : Prop :=
  (∃ p ∈ s.pending, p.oauthAttemptId = x)
  ∨ ∃ (j : Nat) (run : Run), s.runs[j]? = some run ∧ run.payload.oauthAttemptId = x
    ∧ run.phase ≠ .finished

def Covered (s : Process) : Prop :=
  ∀ x v, s.db.look x = some v → v.status = .pending → v.stage = some "queued" → Covers s x

def CoveredBut (x : String) (s : Process) : Prop :=
  ∀ y v, s.db.look y = some v → v.status = .pending → v.stage = some "queued" → y ≠ x → Covers s y

/-- No slot is idle while a payload waits. -/
def Saturated (s : Process) : Prop :=
  s.accepting = true → s.pending ≠ [] → s.concurrency ≤ s.active.card

/-! ## Attempts that stay -/

section Stands

variable {look look' : String → Option AttemptView} {taskId enterpriseId id x y : String}
  {P : AttemptView → Prop} {v w : AttemptView} {status : TaskStatus} {stage : Option String}

theorem Stands.set (h : Stands look taskId enterpriseId x P) (hv : look y = some v)
    (hset : ∀ z, look' z = if z = y then some { v with status := status, stage := stage } else look z)
    (hsame : x = y → P v → P { v with status := status, stage := stage }) :
    Stands look' taskId enterpriseId x P := by
  obtain ⟨w, hw, htask, henterprise, hP⟩ := h
  by_cases hxy : x = y
  · subst hxy
    obtain rfl : v = w := Option.some.inj (hv.symm.trans hw)
    exact ⟨_, (hset x).trans (if_pos rfl), htask, henterprise, hsame rfl hP⟩
  · exact ⟨w, (hset x).trans ((if_neg hxy).trans hw), htask, henterprise, hP⟩

@[simp] theorem AttemptView.leave_status (id : String) (v : AttemptView) :
    (v.leave id).status = v.status := by
  unfold AttemptView.leave
  split <;> rfl

@[simp] theorem AttemptView.leave_stage (id : String) (v : AttemptView) :
    (v.leave id).stage = v.stage := by
  unfold AttemptView.leave
  split <;> rfl

theorem Stands.leave (h : Stands look taskId enterpriseId x P) (hnew : look y = none)
    (hset : ∀ z, look' z = if z = y then some w else (look z).map (AttemptView.leave id))
    (hP : ∀ v, look x = some v → P v → P (v.leave id)) : Stands look' taskId enterpriseId x P := by
  obtain ⟨v, hv, htask, henterprise, hPv⟩ := h
  have hxy : x ≠ y := by
    rintro rfl
    rw [hnew] at hv
    cases hv
  refine ⟨v.leave id, ?_, ?_, ?_, hP v hv hPv⟩
  · rw [hset x, if_neg hxy, hv]
    rfl
  · unfold AttemptView.leave
    split <;> exact htask
  · unfold AttemptView.leave
    split <;> exact henterprise

theorem look_set_ne_none (hset : ∀ z, look' z = if z = y then some w else look z)
    (hx : look x ≠ none) : look' x ≠ none := by
  rw [hset]
  split
  · nofun
  · exact hx

theorem look_set_cases (hset : ∀ z, look' z = if z = y then some w else look z)
    (hx : look' x = some v) : x = y ∧ v = w ∨ x ≠ y ∧ look x = some v := by
  rw [hset] at hx
  by_cases hxy : x = y
  · rw [if_pos hxy] at hx
    exact .inl ⟨hxy, (Option.some.inj hx).symm⟩
  · rw [if_neg hxy] at hx
    exact .inr ⟨hxy, hx⟩

theorem look_set_imp {Q : AttemptView → Prop} (hv : look y = some v)
    (hset : ∀ z, look' z = if z = y then some w else look z) (hQ : Q v → Q w)
    (hx : ∃ u, look x = some u ∧ Q u) : ∃ u, look' x = some u ∧ Q u := by
  obtain ⟨u, hu, hQu⟩ := hx
  rw [hset]
  by_cases hxy : x = y
  · subst hxy
    obtain rfl : v = u := Option.some.inj (hv.symm.trans hu)
    exact ⟨w, if_pos rfl, hQ hQu⟩
  · exact ⟨u, (if_neg hxy).trans hu, hQu⟩

end Stands

/-! ## The database -/

section Stored

variable {s : Process} {c : Call}

theorem Stored.exec (h : Stored s) (hc : c.Admissible (s.db :: s.past)) : Stored (s.exec c) where
  runInv := h.runInv.call hc
  orderly := by
    rcases h.runInv.exec_move hc with heq | hmove
    · simp only [Process.exec, heq]
      exact h.orderly
    · exact h.orderly.move (h.runInv.current hc) hmove
  read := by
    intro i r task hr hphase
    obtain ⟨db, hdb, hget⟩ := h.read i r task hr hphase
    exact ⟨db, List.mem_cons_of_mem _ hdb, hget⟩

end Stored

/-! ## Changes of the database -/

section Writes

variable {look look' : String → Option AttemptView} {s : Process} {c : Call} {x id : String}
  {v w : AttemptView} {status : TaskStatus} {stage : Option String}

theorem Line.set (h : Line look s) (hv : look x = some v)
    (hset : ∀ z, look' z = if z = x then some { v with status := status, stage := stage } else look z)
    (hline : ∀ p ∈ s.pending, p.oauthAttemptId ≠ x) : Line look' s :=
  { h with
    queued := fun p hp => (h.queued p hp).set hv hset fun heq => absurd heq (hline p hp)
    known := fun p hp => ⟨(h.known p hp).1, look_set_ne_none hset (h.known p hp).2⟩ }

theorem Slots.set (h : Slots look s) (hv : look x = some v)
    (hset : ∀ z, look' z = if z = x then some { v with status := status, stage := stage } else look z)
    (hruns : ∀ (j : Nat) run, s.runs[j]? = some run → run.payload.oauthAttemptId = x →
      run.Fits status) : Slots look' s :=
  { h with
    stands := fun j run hrun =>
      (h.stands j run hrun).set hv hset fun heq _ => hruns j run hrun heq }

theorem Closing.set (h : Closing look s) (hv : look x = some v)
    (hset : ∀ z, look' z = if z = x then some { v with status := status, stage := stage } else look z)
    (hcalled : v.status.calledOff = true → status.calledOff = true)
    (hcancelling : status = .cancelling → v.status = .cancelling)
    (hawaited : v.status = .cancelling → status ≠ .cancelling →
      ∀ (k : Nat) c j run, s.cancellations[k]? = some c → c.attemptId = x →
        c.phase = .waiting (some j) → s.runs[j]? = some run →
        run.payload.oauthAttemptId = x ∨ run.phase = .finished) : Closing look' s :=
  { h with
    stands := fun k c hk => (h.stands k c hk).set hv hset fun _ hP => ⟨hP.1, hcalled hP.2⟩
    moved := fun y hy => look_set_imp hv hset hcalled (h.moved y hy)
    waiting := by
      intro y w hw hst
      rcases look_set_cases hset hw with ⟨rfl, rfl⟩ | ⟨-, hold⟩
      · exact h.waiting y v hv (hcancelling hst)
      · exact h.waiting y w hold hst
    awaited := by
      intro k c j hk hphase
      obtain ⟨run, hrun, hown | hfinished | ⟨w, hw, hst⟩⟩ := h.awaited k c j hk hphase
      · exact ⟨run, hrun, .inl hown⟩
      · exact ⟨run, hrun, .inr (.inl hfinished)⟩
      · by_cases hx : c.attemptId = x
        · rw [hx] at hw
          obtain rfl : v = w := Option.some.inj (hv.symm.trans hw)
          by_cases hstays : status = .cancelling
          · exact ⟨run, hrun, .inr (.inr ⟨_, (hset _).trans (if_pos hx), hstays⟩)⟩
          · rcases hawaited hst hstays k c j run hk hx hphase hrun with hown | hfinished
            · exact ⟨run, hrun, .inl (hown.trans hx.symm)⟩
            · exact ⟨run, hrun, .inr (.inl hfinished)⟩
        · exact ⟨run, hrun, .inr (.inr ⟨w, (hset _).trans ((if_neg hx).trans hw), hst⟩)⟩ }

theorem Retrying.set (h : Retrying look s)
    (hset : ∀ z, look' z = if z = x then some w else look z) : Retrying look' s :=
  { h with
    preparing := by
      intro i r task reserved y request hi hphase
      obtain ⟨hnamed, hlook, hpushed⟩ := h.preparing i r task reserved y request hi hphase
      exact ⟨hnamed, look_set_ne_none hset hlook, hpushed⟩ }

/-! A new attempt, after which the other attempts of its task are past. -/

theorem look_leave_ne_none {y : String} (hnew : look x = none)
    (hset : ∀ z, look' z = if z = x then some w else (look z).map (AttemptView.leave id))
    (hy : look y ≠ none) : look' y ≠ none := by
  have hne : y ≠ x := by
    rintro rfl
    exact hy hnew
  rw [hset, if_neg hne]
  simpa using hy

theorem look_leave_imp {Q : TaskStatus → Prop} {y : String} (hnew : look x = none)
    (hset : ∀ z, look' z = if z = x then some w else (look z).map (AttemptView.leave id))
    (hy : ∃ u, look y = some u ∧ Q u.status) : ∃ u, look' y = some u ∧ Q u.status := by
  obtain ⟨u, hu, hQ⟩ := hy
  have hne : y ≠ x := by
    rintro rfl
    rw [hnew] at hu
    cases hu
  refine ⟨u.leave id, ?_, by simpa using hQ⟩
  rw [hset, if_neg hne, hu]
  rfl

theorem look_leave_cases {y : String} {u : AttemptView}
    (hset : ∀ z, look' z = if z = x then some w else (look z).map (AttemptView.leave id))
    (hy : look' y = some u) :
    y = x ∧ u = w ∨ ∃ v, look y = some v ∧ v.status = u.status ∧ v.stage = u.stage := by
  rw [hset] at hy
  by_cases hyx : y = x
  · rw [if_pos hyx] at hy
    exact .inl ⟨hyx, (Option.some.inj hy).symm⟩
  · rw [if_neg hyx] at hy
    obtain ⟨v, hv, rfl⟩ := Option.map_eq_some_iff.mp hy
    exact .inr ⟨v, hv, by simp⟩

theorem Line.leave (h : Line look s) (hnew : look x = none)
    (hset : ∀ z, look' z = if z = x then some w else (look z).map (AttemptView.leave id)) :
    Line look' s :=
  { h with
    queued := fun p hp => (h.queued p hp).leave hnew hset fun v _ hP => by simpa using hP
    known := fun p hp => ⟨(h.known p hp).1, look_leave_ne_none hnew hset (h.known p hp).2⟩ }

theorem Slots.leave (h : Slots look s) (hnew : look x = none)
    (hset : ∀ z, look' z = if z = x then some w else (look z).map (AttemptView.leave id)) :
    Slots look' s :=
  { h with
    stands := fun j run hrun =>
      (h.stands j run hrun).leave hnew hset fun v _ hP => by simpa using hP }

theorem Closing.leave (h : Closing look s) (hnew : look x = none)
    (hset : ∀ z, look' z = if z = x then some w else (look z).map (AttemptView.leave id))
    (hfirst : w.status = .pending)
    (hlast : ∀ y v, look y = some v → v.taskId = id → v.current = true →
      v.status.calledOff = false) : Closing look' s :=
  { h with
    stands := by
      intro k c hk
      refine (h.stands k c hk).leave hnew hset ?_
      rintro v hv ⟨hcurrent, hcalled⟩
      have htask : v.taskId ≠ id := by
        intro htask
        rw [hlast _ v hv htask hcurrent] at hcalled
        cases hcalled
      rw [AttemptView.leave, if_neg htask]
      exact ⟨hcurrent, hcalled⟩
    moved := fun y hy =>
      look_leave_imp (Q := fun status => status.calledOff = true) hnew hset (h.moved y hy)
    waiting := by
      intro y u hu hst
      rcases look_leave_cases hset hu with ⟨-, rfl⟩ | ⟨v, hv, hsame, -⟩
      · rw [hfirst] at hst
        cases hst
      · exact h.waiting y v hv (hsame.trans hst)
    awaited := by
      intro k c j hk hphase
      obtain ⟨run, hrun, hown | hfinished | hcancelling⟩ := h.awaited k c j hk hphase
      · exact ⟨run, hrun, .inl hown⟩
      · exact ⟨run, hrun, .inr (.inl hfinished)⟩
      · exact ⟨run, hrun, .inr (.inr
          (look_leave_imp (Q := fun status => status = .cancelling) hnew hset hcancelling))⟩ }

theorem Retrying.leave (h : Retrying look s) (hnew : look x = none)
    (hset : ∀ z, look' z = if z = x then some w else (look z).map (AttemptView.leave id)) :
    Retrying look' s :=
  { h with
    preparing := by
      intro i r task reserved y request hi hphase
      obtain ⟨hnamed, hlook, hpushed⟩ := h.preparing i r task reserved y request hi hphase
      exact ⟨hnamed, look_leave_ne_none hnew hset hlook, hpushed⟩ }

/-- A call that leaves the attempts to `look'`. -/
theorem Sound.exec (h : Sound s) (hc : c.Admissible (s.db :: s.past))
    (hline : Line (c.exec s.db).look s) (hslots : Slots (c.exec s.db).look s)
    (hclosing : Closing (c.exec s.db).look s) (hretrying : Retrying (c.exec s.db).look s) :
    Sound (s.exec c) where
  stored := h.stored.exec hc
  line := { hline with }
  slots := { hslots with }
  closing := { hclosing with }
  retrying := { hretrying with }

theorem Sound.same (h : Sound s) (hc : c.Admissible (s.db :: s.past))
    (hlook : (c.exec s.db).look = s.db.look) : Sound (s.exec c) :=
  h.exec hc (hlook ▸ h.line) (hlook ▸ h.slots) (hlook ▸ h.closing) (hlook ▸ h.retrying)

/-- An attempt that no payload waits for is written. -/
theorem Sound.write (h : Sound s) (hc : c.Admissible (s.db :: s.past)) (hv : s.db.look x = some v)
    (hset : s.db.LookSet (c.exec s.db) x { v with status := status, stage := stage })
    (hline : ∀ p ∈ s.pending, p.oauthAttemptId ≠ x)
    (hruns : ∀ (j : Nat) run, s.runs[j]? = some run → run.payload.oauthAttemptId = x →
      run.Fits status)
    (hcalled : v.status.calledOff = true → status.calledOff = true)
    (hcancelling : status = .cancelling → v.status = .cancelling)
    (hawaited : v.status = .cancelling → status ≠ .cancelling →
      ∀ (k : Nat) c j run, s.cancellations[k]? = some c → c.attemptId = x →
        c.phase = .waiting (some j) → s.runs[j]? = some run →
        run.payload.oauthAttemptId = x ∨ run.phase = .finished) : Sound (s.exec c) :=
  h.exec hc (h.line.set hv hset hline) (h.slots.set hv hset hruns)
    (h.closing.set hv hset hcalled hcancelling hawaited) (h.retrying.set hset)

/-- An attempt is created. -/
theorem Sound.create (h : Sound s) (hc : c.Admissible (s.db :: s.past)) (hnew : s.db.look x = none)
    (hset : ∀ z, (c.exec s.db).look z =
      if z = x then some w else (s.db.look z).map (AttemptView.leave id))
    (hfirst : w.status = .pending)
    (hlast : ∀ y v, s.db.look y = some v → v.taskId = id → v.current = true →
      v.status.calledOff = false) : Sound (s.exec c) :=
  h.exec hc (h.line.leave hnew hset) (h.slots.leave hnew hset)
    (h.closing.leave hnew hset hfirst hlast) (h.retrying.leave hnew hset)

end Writes

/-! ## Changes of the pending list and of the runs -/

section Runs

variable {s : Process} {p : Payload} {rest : List Payload} {j : Nat} {run : Run} {phase : RunPhase}

/-- A payload that waits has not been started. -/
theorem Line.unstarted {look : String → Option AttemptView} (h : Line look s) (hp : p ∈ s.pending) :
    ∀ start ∈ s.started, start.payload.oauthAttemptId ≠ p.oauthAttemptId := by
  intro start hstart heq
  have hnodup := h.once.sublist h.order
  rw [Keyed, List.map_append] at hnodup
  have hmem : start.payload.oauthAttemptId
      ∈ (s.started.map (·.payload)).map (·.oauthAttemptId) :=
    List.mem_map_of_mem (List.mem_map_of_mem hstart)
  exact (List.nodup_append.mp hnodup).2.2 _ hmem _ (List.mem_map_of_mem hp) heq

theorem Sound.push (h : Sound s) (hp : Stands s.db.look p.taskId p.enterpriseId p.oauthAttemptId
      fun v => v.status = .pending ∧ v.stage = some "queued")
    (hnamed : p.oauthAttemptId ≠ "") (hbusy : s.isBusy p.taskId = false)
    (hnew : ∀ q ∈ s.pushed, q.oauthAttemptId ≠ p.oauthAttemptId)
    (hretry : ∀ (i : Nat) r task reserved x request, s.retries[i]? = some r →
      r.phase = .preparing task reserved x request → p.oauthAttemptId ≠ x) :
    Sound (s.push p) := by
  simp only [Process.isBusy, Bool.or_eq_false_iff, decide_eq_false_iff_not, List.any_eq_false,
    beq_iff_eq] at hbusy
  refine ⟨{ h.stored with }, ?_, { h.slots with }, { h.closing with }, ?_⟩
  · refine { h.line with
      queued := ?_, tasks := ?_, idle := ?_, order := ?_, once := ?_, known := ?_, accounted := ?_ }
    · intro q hq
      rcases List.mem_append.mp hq with hq | hq
      · exact h.line.queued q hq
      · obtain rfl := List.mem_singleton.mp hq
        exact hp
    · exact h.line.tasks.append fun q hq => hbusy.2 q hq
    · intro q hq
      rcases List.mem_append.mp hq with hq | hq
      · exact h.line.idle q hq
      · obtain rfl := List.mem_singleton.mp hq
        exact hbusy.1
    · show (s.started.map (·.payload) ++ (s.pending ++ [p])).Sublist (s.pushed ++ [p])
      rw [← List.append_assoc]
      exact h.line.order.append (List.Sublist.refl [p])
    · exact h.line.once.append hnew
    · intro q hq
      rcases List.mem_append.mp hq with hq | hq
      · exact h.line.known q hq
      · obtain rfl := List.mem_singleton.mp hq
        obtain ⟨v, hv, -⟩ := hp
        exact ⟨hnamed, by simp [Process.push, hv]⟩
    · intro q hq
      rcases List.mem_append.mp hq with hq | hq
      · rcases h.line.accounted q hq with hstarted | hpending | hmoved
        · exact .inl hstarted
        · exact .inr (.inl (List.mem_append_left _ hpending))
        · exact .inr (.inr hmoved)
      · exact .inr (.inl (List.mem_append_right _ hq))
  · refine { h.retrying with preparing := ?_ }
    intro i r task reserved x request hi hphase
    obtain ⟨hx, hlook, hpushed⟩ := h.retrying.preparing i r task reserved x request hi hphase
    refine ⟨hx, hlook, ?_⟩
    intro q hq
    rcases List.mem_append.mp hq with hq | hq
    · exact hpushed q hq
    · obtain rfl := List.mem_singleton.mp hq
      exact hretry i r task reserved x request hi hphase

theorem CoveredBut.push (h : CoveredBut p.oauthAttemptId s) : Covered (s.push p) := by
  intro x v hv hst hstage
  by_cases hx : x = p.oauthAttemptId
  · exact .inl ⟨p, List.mem_append_right _ (List.mem_singleton.mpr rfl), hx.symm⟩
  · rcases h x v hv hst hstage hx with ⟨q, hq, hqx⟩ | hrun
    · exact .inl ⟨q, List.mem_append_left _ hq, hqx⟩
    · exact .inr hrun

/-- The first payload is started: its run has thrown, or will go on. -/
def Process.begun (s : Process) (p : Payload) (rest : List Payload) (message : String) : Process :=
  { s with
    pending := rest
    active := insert p.taskId s.active
    controllers := Function.update s.controllers p.taskId (some s.runs.length)
    completions := Function.update s.completions p.taskId (some s.runs.length)
    started := s.started ++ [{ payload := p, running := s.running, limit := s.concurrency }]
    runs := s.runs ++ [{ payload := p, aborted := false, phase := .threw message }] }

theorem Sound.begun (h : Sound s) (hpending : s.pending = p :: rest)
    (hslot : s.active.card < s.concurrency) (message : String) : Sound (s.begun p rest message) := by
  have hfirst : p ∈ s.pending := by simp [hpending]
  have hrest : ∀ q ∈ rest, q ∈ s.pending := fun q hq => by simp [hpending, hq]
  have hidle : p.taskId ∉ s.active := h.line.idle p hfirst
  obtain ⟨v, hv, htask, henterprise, hst, hstage⟩ := h.line.queued p hfirst
  have hother : ∀ q ∈ rest, q.taskId ≠ p.taskId := by
    have hkeys := h.line.tasks
    rw [hpending] at hkeys
    intro q hq heq
    exact (List.nodup_cons.mp hkeys).1 (List.mem_map.mpr ⟨q, hq, heq⟩)
  have hcalled : ∀ u, s.db.look p.oauthAttemptId = some u → u.status.calledOff = false := by
    intro u hu
    obtain rfl : v = u := Option.some.inj (hv.symm.trans hu)
    rw [hst]
    rfl
  refine ⟨{ h.stored with }, ?_, ?_, ?_, { h.retrying with }⟩
  · refine { h.line with queued := ?_, tasks := ?_, idle := ?_, order := ?_, accounted := ?_ }
    · exact fun q hq => h.line.queued q (hrest q hq)
    · have hkeys := h.line.tasks
      rw [hpending] at hkeys
      exact (List.nodup_cons.mp hkeys).2
    · intro q hq hactive
      rcases Finset.mem_insert.mp hactive with heq | hactive
      · exact hother q hq heq
      · exact h.line.idle q (hrest q hq) hactive
    · have horder := h.line.order
      rw [hpending] at horder
      simpa [Process.begun] using horder
    · intro q hq
      rcases h.line.accounted q hq with hstarted | hwaits | hmoved
      · exact .inl (by simpa [Process.begun] using .inl (by simpa using hstarted))
      · rw [hpending] at hwaits
        rcases List.mem_cons.mp hwaits with rfl | hwaits
        · exact .inl (by simp [Process.begun])
        · exact .inr (.inl hwaits)
      · exact .inr (.inr hmoved)
  · refine { h.slots with
      payloads := ?_, stands := ?_, active := ?_, controllers := ?_, completions := ?_, running := ?_
      limits := ?_ }
    · simp [Process.begun, h.slots.payloads]
    · intro j run hrun
      rcases getElem?_concat.mp hrun with hold | ⟨-, rfl⟩
      · exact h.slots.stands j run hold
      · refine ⟨v, hv, htask, henterprise, ?_, ?_, ?_⟩
        · rintro (hlive | ⟨_, hlive⟩) <;> cases hlive
        · intro hcancelling
          rw [hst] at hcancelling
          cases hcancelling
        · exact fun _ => ⟨rfl, message, rfl⟩
    · intro id
      show id ∈ insert p.taskId s.active ↔ _
      rw [Finset.mem_insert, h.slots.active]
      constructor
      · rintro (rfl | ⟨j, run, hrun, hid, halive⟩)
        · exact ⟨s.runs.length, _, getElem?_concat.mpr (.inr ⟨rfl, rfl⟩), rfl, nofun⟩
        · exact ⟨j, run, getElem?_concat.mpr (.inl hrun), hid, halive⟩
      · rintro ⟨j, run, hrun, hid, halive⟩
        rcases getElem?_concat.mp hrun with hold | ⟨-, rfl⟩
        · exact .inr ⟨j, run, hold, hid, halive⟩
        · exact .inl hid.symm
    · intro id j
      show Function.update s.controllers p.taskId (some s.runs.length) id = some j ↔
        ∃ run, (s.runs ++ [_])[j]? = some run ∧ _
      by_cases hid : id = p.taskId
      · subst hid
        rw [Function.update_self]
        constructor
        · rintro ⟨⟩
          exact ⟨_, getElem?_concat.mpr (.inr ⟨rfl, rfl⟩), rfl, nofun⟩
        · rintro ⟨run, hrun, hid, halive⟩
          rcases getElem?_concat.mp hrun with hold | ⟨hj, -⟩
          · exact absurd ((h.slots.active _).mpr ⟨j, run, hold, hid, halive⟩) hidle
          · rw [hj]
      · rw [Function.update_of_ne hid, h.slots.controllers]
        constructor
        · rintro ⟨run, hrun, hrest⟩
          exact ⟨run, getElem?_concat.mpr (.inl hrun), hrest⟩
        · rintro ⟨run, hrun, hrunid, halive⟩
          rcases getElem?_concat.mp hrun with hold | ⟨-, rfl⟩
          · exact ⟨run, hold, hrunid, halive⟩
          · exact absurd hrunid.symm hid
    · show Function.update s.completions _ _ = Function.update s.controllers _ _
      rw [h.slots.completions]
    · show (s.runs ++ [_]).countP _ = (insert p.taskId s.active).card
      rw [List.countP_append, Finset.card_insert_of_notMem hidle, ← h.slots.running]
      rfl
    · intro start hstart
      rcases List.mem_append.mp hstart with hold | hnew
      · exact h.slots.limits start hold
      · obtain rfl := List.mem_singleton.mp hnew
        show s.running < s.concurrency
        rw [h.slots.running]
        exact hslot
  · refine { h.closing with completion := ?_, awaited := ?_, early := ?_ }
    · intro k c o hk hphase j run hrun hown halive
      rcases getElem?_concat.mp hrun with hold | ⟨-, rfl⟩
      · exact h.closing.completion k c o hk hphase j run hold hown halive
      · obtain ⟨u, hu, -, -, -, hu'⟩ := h.closing.stands k c hk
        rw [hcalled u (hown ▸ hu)] at hu'
        cases hu'
    · intro k c j hk hphase
      obtain ⟨run, hrun, hcases⟩ := h.closing.awaited k c j hk hphase
      exact ⟨run, getElem?_concat.mpr (.inl hrun), hcases⟩
    · intro x hx
      obtain ⟨hmoved, hearly⟩ := h.closing.early x hx
      refine ⟨hmoved, ?_⟩
      intro start hstart
      rcases List.mem_append.mp hstart with hold | hnew
      · exact hearly start hold
      · obtain rfl := List.mem_singleton.mp hnew
        rintro rfl
        obtain ⟨u, hu, hu'⟩ := h.closing.moved _ hmoved
        rw [hcalled u hu] at hu'
        cases hu'

theorem Covered.begun (h : Covered s) (hpending : s.pending = p :: rest) (message : String) :
    Covered (s.begun p rest message) := by
  intro x v hv hst hstage
  rcases h x v hv hst hstage with ⟨q, hq, hqx⟩ | ⟨j, run, hrun, hown, halive⟩
  · rw [hpending] at hq
    rcases List.mem_cons.mp hq with rfl | hq
    · exact .inr ⟨s.runs.length, _, getElem?_concat.mpr (.inr ⟨rfl, rfl⟩), hqx, nofun⟩
    · exact .inl ⟨q, hq, hqx⟩
  · exact .inr ⟨j, run, getElem?_concat.mpr (.inl hrun), hown, halive⟩

end Runs

end GhcpConsole.Login
