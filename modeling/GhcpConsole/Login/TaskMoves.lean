import GhcpConsole.Lib.Tx
import GhcpConsole.Login.TasksRepo

/-!
# What a call does to the task tables

Every call of the repository module leaves the tables as they are or makes one `Move`: it creates
a task with its first attempt, moves a failed task on to a new attempt, writes an active task
together with its current attempt, rewrites the stage of finished tasks, or deletes a finished
task. The statement filters are used here once; what a run can do is read off the moves.
-/

namespace GhcpConsole.Login

/-! ## Calls -/

inductive Call
  | createTask (enterpriseId id : String) (input : CreateTaskInput) (now : Nat)
  | reserveRetry (enterpriseId : String) (task : LoginTaskRecord) (attemptId : String) (now : Nat)
  | setStage (enterpriseId id attemptId stage : String) (now : Nat)
  | markRunning (enterpriseId id logPath : String) (attemptId : Option String) (now : Nat)
  | markSuccess (enterpriseId id : String) (attemptId : Option String) (now : Nat)
  | markFailed (enterpriseId id reason : String) (attemptId code : Option String) (now : Nat)
  | requestCancellation (enterpriseId id : String)
  | markCancelled (enterpriseId id : String) (attemptId : Option String) (now : Nat)
  | claimTaskDeletion (enterpriseId id : String)
  | releaseTaskDeletion (enterpriseId : String) (id : Option String)
  | deleteTask (enterpriseId id : String)

/-- The database after a call that may throw. -/
def settle {α : Type} (db : Db) : Except TaskError (α × Db) → Db
  | .ok (_, db') => db'
  | .error _ => db

def Call.exec (db : Db) : Call → Db
  | .createTask enterpriseId id input now => settle db (db.createTask enterpriseId id input now)
  | .reserveRetry enterpriseId task attemptId now =>
      settle db (db.reserveRetry enterpriseId task attemptId now)
  | .setStage enterpriseId id attemptId stage now => db.setStage enterpriseId id attemptId stage now
  | .markRunning enterpriseId id logPath attemptId now =>
      (db.markRunning enterpriseId id logPath attemptId now).2
  | .markSuccess enterpriseId id attemptId now => (db.markSuccess enterpriseId id attemptId now).2
  | .markFailed enterpriseId id reason attemptId code now =>
      (db.markFailed enterpriseId id reason attemptId code now).2
  | .requestCancellation enterpriseId id => (db.requestCancellation enterpriseId id).2
  | .markCancelled enterpriseId id attemptId now =>
      (db.markCancelled enterpriseId id attemptId now).2
  | .claimTaskDeletion enterpriseId id => (db.claimTaskDeletion enterpriseId id).2
  | .releaseTaskDeletion enterpriseId id => db.releaseTaskDeletion enterpriseId id
  | .deleteTask enterpriseId id => (db.deleteTask enterpriseId id).2

/-- The task and the attempt a call is addressed to, when its caller names both. -/
def Call.addresses : Call → Option (String × String × String)
  | .setStage enterpriseId id attemptId _ _ => some (enterpriseId, id, attemptId)
  | .markRunning enterpriseId id _ attemptId _ => attemptId.map (enterpriseId, id, ·)
  | .markSuccess enterpriseId id attemptId _ => attemptId.map (enterpriseId, id, ·)
  | .markFailed enterpriseId id _ attemptId _ _ => attemptId.map (enterpriseId, id, ·)
  | .markCancelled enterpriseId id attemptId _ => attemptId.map (enterpriseId, id, ·)
  | .reserveRetry enterpriseId task _ _ => task.oauthAttemptId.map (enterpriseId, task.id, ·)
  | _ => none

/-! ## A task and its current attempt -/

/-- The attempt row `a` is the current one of the task row `t`, and agrees with it. -/
structure Mirrors (t : TaskRow) (a : AttemptRow) : Prop where
  current : t.oauthAttemptId = some a.id
  named : a.id ≠ ""
  owner : a.taskId = t.id
  status : a.status = t.status
  /-- A deletion claim hides the stage of a finished task, which it keeps to restore it. -/
  stage : ∃ s, a.stage = some s ∧ s ≠ "deleting" ∧ (t.stage = some s ∨
    (t.stage = some "deleting" ∧ t.priorStage = some s ∧ t.status.active = false))

/-- What no statement on a task row changes. -/
def KeepsTask (f : TaskRow → TaskRow) : Prop :=
  ∀ t, (f t).id = t.id ∧ (f t).identity = t.identity ∧ (f t).enterpriseId = t.enterpriseId

/-- What no statement on an attempt row changes. -/
def KeepsAttempt (g : AttemptRow → AttemptRow) : Prop :=
  ∀ a, (g a).id = a.id ∧ (g a).taskId = a.taskId ∧ (g a).attemptNumber = a.attemptNumber
    ∧ (g a).historyIncomplete = a.historyIncomplete

namespace Db

/-- Rewrites the task row with that id. -/
def setTask (db : Db) (id : String) (f : TaskRow → TaskRow) : Db :=
  { db with tasks := db.tasks.map fun row => if row.id = id then f row else row }

end Db

/-- One change of the tables, made by the call `c`. -/
inductive Move (c : Call) (db : Db) : Db → Prop
  | create {enterpriseId id : String} {input : CreateTaskInput} {now : Nat} (t : TaskRow)
      (a : AttemptRow) (hc : c = .createTask enterpriseId id input now) (hid : t.id = id)
      (hfresh : ∀ r ∈ db.tasks, r.id ≠ t.id) (hnew : ∀ r ∈ db.attempts, r.id ≠ a.id)
      (hidle : db.hasActiveTask t.identity = false) (hmirror : Mirrors t a)
      (hnumber : a.attemptNumber = 1) (hhistory : a.historyIncomplete = false) :
      Move c db { db with tasks := db.tasks ++ [t], attempts := db.attempts ++ [a] }
  | retry {enterpriseId : String} {record : LoginTaskRecord} {now : Nat} (t : TaskRow)
      (a : AttemptRow) (f : TaskRow → TaskRow)
      (hc : c = .reserveRetry enterpriseId record a.id now) (ht : t ∈ db.tasks)
      (hrecord : record.id = t.id) (hfailed : t.status = .failed)
      (hclaim : t.stage ≠ some "deleting") (hnew : ∀ r ∈ db.attempts, r.id ≠ a.id)
      (hidle : db.hasActiveTask record.identity = false) (hf : KeepsTask f)
      (hmirror : Mirrors (f t) a)
      (hnumber : a.attemptNumber = db.nextNumber t.id) (hhistory : a.historyIncomplete = false) :
      Move c db { db.setTask t.id f with attempts := db.attempts ++ [a] }
  | advance (t : TaskRow) (attemptId : String) (f : TaskRow → TaskRow)
      (g : AttemptRow → AttemptRow) (ht : t ∈ db.tasks) (hactive : t.status.active = true)
      (hcurrent : t.oauthAttemptId = some attemptId) (hf : KeepsTask f) (hg : KeepsAttempt g)
      (hmirror : ∀ a, Mirrors t a → Mirrors (f t) (g a)) :
      Move c db ((db.setTask t.id f).updateAttempt attemptId g)
  | restage (p : TaskRow → Bool) (f : TaskRow → TaskRow) (hf : KeepsTask f)
      (hfinished : ∀ t, p t = true → t.status.active = false)
      (hmirror : ∀ t a, p t = true → Mirrors t a → Mirrors (f t) a) :
      Move c db (db.updateTasks p f).1
  | delete {enterpriseId : String} (t : TaskRow) (hc : c = .deleteTask enterpriseId t.id)
      (ht : t ∈ db.tasks) (hfinished : t.status.active = false) :
      Move c db { db with
        tasks := db.tasks.filter (·.id ≠ t.id), attempts := db.attempts.filter (·.taskId ≠ t.id) }

/-! ## Statements -/

section Statements

variable {db db' : Db} {guard : TaskRow → Bool} {f : TaskRow → TaskRow} {id : String}

theorem updateTasks_unchanged (h : (db.updateTasks guard f).2 = false) :
    (db.updateTasks guard f).1 = db := by
  have hnone : ∀ row ∈ db.tasks, guard row = false := by
    simpa [Db.updateTasks] using h
  have hmap : (db.tasks.map fun row => if guard row then f row else row) = db.tasks := by
    conv_rhs => rw [← List.map_id db.tasks]
    apply List.map_congr_left
    intro row hrow
    simp [hnone row hrow]
  rw [Db.updateTasks, hmap]

/-- An update that names a task by its id and has changed a row has rewritten that row. -/
theorem updateTasks_changed (id : String) (hkey : Keyed (·.id) db.tasks)
    (hguard : ∀ row, guard row = true → row.id = id) (h : (db.updateTasks guard f).2 = true) :
    ∃ t ∈ db.tasks, t.id = id ∧ guard t = true ∧ (db.updateTasks guard f).1 = db.setTask t.id f := by
  obtain ⟨t, ht, hgt⟩ : ∃ t ∈ db.tasks, guard t = true := by
    simpa [Db.updateTasks] using h
  refine ⟨t, ht, hguard t hgt, hgt, ?_⟩
  have hmap : (db.tasks.map fun row => if guard row then f row else row)
      = db.tasks.map fun row => if row.id = t.id then f row else row := by
    apply List.map_congr_left
    intro row hrow
    by_cases hid : row.id = t.id
    · have heq : row = t := hkey.eq hrow ht hid
      simp [heq, hgt]
    · have hno : guard row ≠ true := fun hg => hid ((hguard row hg).trans (hguard t hgt).symm)
      simp [hid, hno]
  rw [Db.setTask, ← hmap]
  rfl

theorem names_id {enterpriseId attemptId : String} {row : TaskRow}
    (h : Db.names enterpriseId id attemptId row = true) : row.id = id := by
  simp only [Db.names, Bool.and_eq_true, decide_eq_true_eq] at h
  exact h.1.2

theorem names_current {enterpriseId attemptId : String} {row : TaskRow}
    (h : Db.names enterpriseId id attemptId row = true) : row.oauthAttemptId = some attemptId := by
  simp only [Db.names, Bool.and_eq_true, decide_eq_true_eq] at h
  exact h.2

theorem insertTaskRow_ok {row : TaskRow} (h : db.insertTaskRow row = .ok db') :
    (∀ r ∈ db.tasks, r.id ≠ row.id) ∧ db' = { db with tasks := db.tasks ++ [row] } := by
  unfold Db.insertTaskRow at h
  split at h
  · rename_i hguard
    simp only [Bool.and_eq_true, Bool.not_eq_true', List.any_eq_false, beq_iff_eq] at hguard
    exact ⟨hguard.2, (Except.ok.inj h).symm⟩
  · cases h

theorem insertAttemptRow_ok {row : AttemptRow} (h : db.insertAttemptRow row = .ok db') :
    (∀ r ∈ db.attempts, r.id ≠ row.id) ∧ db' = { db with attempts := db.attempts ++ [row] } := by
  unfold Db.insertAttemptRow at h
  split at h
  · rename_i hguard
    simp only [Bool.and_eq_true, Bool.not_eq_true', List.any_eq_false, beq_iff_eq] at hguard
    exact ⟨hguard.1.2, (Except.ok.inj h).symm⟩
  · cases h

theorem getTask_eq_some {enterpriseId : String} {record : LoginTaskRecord}
    (h : db.getTask enterpriseId id = some record) :
    ∃ t ∈ db.tasks, t.enterpriseId = enterpriseId ∧ t.id = id ∧ mapRow t = record := by
  obtain ⟨t, hfind, hmap⟩ := Option.map_eq_some_iff.mp h
  have hp := List.find?_some hfind
  simp only [Bool.and_eq_true, beq_iff_eq] at hp
  exact ⟨t, List.mem_of_find?_eq_some hfind, hp.1, hp.2, hmap⟩

theorem getTask_of_mem (hkey : Keyed (·.id) db.tasks) {t : TaskRow} (ht : t ∈ db.tasks) :
    db.getTask t.enterpriseId t.id = some (mapRow t) := by
  cases hget : db.getTask t.enterpriseId t.id with
  | none =>
      have hnone := List.find?_eq_none.mp (Option.map_eq_none_iff.mp hget) t ht
      simp at hnone
  | some record =>
      obtain ⟨r, hr, -, hid, rfl⟩ := getTask_eq_some hget
      rw [hkey.eq hr ht hid]

theorem setTask_keyed (hkey : Keyed (·.id) db.tasks) (hf : KeepsTask f) :
    Keyed (·.id) (db.setTask id f).tasks := by
  apply hkey.map
  intro row
  split
  · exact (hf row).1
  · rfl

theorem mem_setTask {r : TaskRow} :
    r ∈ (db.setTask id f).tasks ↔ ∃ t ∈ db.tasks, (if t.id = id then f t else t) = r :=
  List.mem_map

theorem setTask_self (db : Db) (id : String) : db.setTask id (fun row => row) = db := by
  simp [Db.setTask]

theorem setTask_eq (db : Db) (id : String) (f : TaskRow → TaskRow) :
    db.setTask id f = (db.updateTasks (fun row => row.id = id) f).1 := by
  simp [Db.setTask, Db.updateTasks]

theorem truthy_some {x : String} (h : x ≠ "") : truthy (some x) = some x := by
  simp [truthy, h]

end Statements

/-! ## One lemma a call -/

section Calls

variable {db db' : Db} {enterpriseId id : String} {now : Nat} {c : Call}

@[simp] theorem throw_bind_ne_ok {ε α β : Type} (e : ε) (f : α → Except ε β) (b : β) :
    ((throw e : Except ε α) >>= f) ≠ .ok b := nofun

theorem createTask_ok {input : CreateTaskInput} {result : Option LoginTaskRecord}
    (h : db.createTask enterpriseId id input now = .ok (result, db')) :
    (∃ owner task, db.attemptOwner input.oauthAttemptId = some owner
      ∧ db.existingTaskForAttempt enterpriseId owner input = .ok task ∧ result = some task ∧ db' = db)
    ∨ ((∀ r ∈ db.tasks, r.id ≠ id) ∧ (∀ r ∈ db.attempts, r.id ≠ input.oauthAttemptId)
      ∧ db.hasActiveTask input.identity = false ∧ result = db'.getTask enterpriseId id
      ∧ db' = { db with
          tasks := db.tasks ++ [Db.newTask enterpriseId id input now]
          attempts := db.attempts ++ [Db.newAttempt input.oauthAttemptId id 1 "queued" now] }) := by
  unfold Db.createTask at h
  cases howner : db.attemptOwner input.oauthAttemptId with
  | some owner =>
      simp only [howner] at h
      obtain ⟨task, htask, hpair⟩ := except_bind_eq_ok.mp h
      obtain ⟨rfl, rfl⟩ := Prod.mk.inj (Except.ok.inj hpair)
      exact .inl ⟨owner, task, rfl, htask, rfl, rfl⟩
  | none =>
      simp only [howner] at h
      cases hidle : db.hasActiveTask input.identity with
      | true => simp [hidle] at h
      | false =>
          simp only [hidle, Bool.false_eq_true, if_false] at h
          obtain ⟨db1, hinsert, hpair⟩ := except_bind_eq_ok.mp h
          obtain ⟨db2, htask, hattempt⟩ := except_bind_eq_ok.mp hinsert
          obtain ⟨hfresh, rfl⟩ := insertTaskRow_ok htask
          obtain ⟨hnew, rfl⟩ := insertAttemptRow_ok hattempt
          obtain ⟨rfl, rfl⟩ := Prod.mk.inj (Except.ok.inj hpair)
          exact .inr ⟨hfresh, hnew, rfl, rfl, rfl⟩

theorem createTask_move {input : CreateTaskInput} {result : Option LoginTaskRecord}
    (hnamed : input.oauthAttemptId ≠ "")
    (h : db.createTask enterpriseId id input now = .ok (result, db')) :
    db' = db ∨ Move (.createTask enterpriseId id input now) db db' := by
  rcases createTask_ok h with ⟨_, _, _, _, _, heq⟩ | ⟨hfresh, hnew, hidle, -, rfl⟩
  · exact .inl heq
  · right
    refine Move.create _ _ rfl rfl hfresh hnew hidle ?_ rfl rfl
    exact ⟨rfl, hnamed, rfl, rfl, "queued", rfl, by decide, .inl rfl⟩

theorem reserveRetry_ok {task : LoginTaskRecord} {attemptId : String}
    {result : Option LoginTaskRecord} (hkey : Keyed (·.id) db.tasks)
    (h : db.reserveRetry enterpriseId task attemptId now = .ok (result, db')) :
    ∃ t ∈ db.tasks, t.enterpriseId = enterpriseId ∧ t.id = task.id ∧ t.status = .failed
      ∧ t.oauthAttemptId = task.oauthAttemptId ∧ t.stage ≠ some "deleting"
      ∧ (∀ r ∈ db.attempts, r.id ≠ attemptId) ∧ db.hasActiveTask task.identity = false
      ∧ result = db'.getTask enterpriseId task.id
      ∧ db' = { db.setTask t.id (Db.retried attemptId now) with
          attempts := db.attempts ++
            [Db.newAttempt attemptId task.id (db.nextNumber task.id) "preparing" now] } := by
  unfold Db.reserveRetry at h
  cases hidle : db.hasActiveTask task.identity with
  | true => simp [hidle] at h
  | false =>
      simp only [hidle, Bool.false_eq_true, if_false] at h
      rcases hupdate : db.updateTasks _ _ with ⟨db1, changed⟩
      cases changed with
      | false =>
          rw [hupdate] at h
          simp at h
      | true =>
          have hchanged := congrArg Prod.snd hupdate
          obtain ⟨t, ht, hid, hguard, hset⟩ := updateTasks_changed task.id hkey
            (fun row hrow => by simp_all) hchanged
          rw [hupdate] at h hset
          simp only [Bool.not_true, Bool.false_eq_true, if_false] at h
          obtain ⟨db2, hinsert, hpair⟩ := except_bind_eq_ok.mp h
          obtain ⟨hnew, rfl⟩ := insertAttemptRow_ok hinsert
          obtain ⟨rfl, rfl⟩ := Prod.mk.inj (Except.ok.inj hpair)
          obtain rfl : db1 = _ := hset
          simp only [Bool.and_eq_true, decide_eq_true_eq] at hguard
          obtain ⟨⟨⟨⟨henterprise, -⟩, hfailed⟩, hattempt⟩, hclaim⟩ := hguard
          exact ⟨t, ht, henterprise, hid, hfailed, hattempt, hclaim, hnew, rfl, rfl, rfl⟩

theorem reserveRetry_move {task : LoginTaskRecord} {attemptId : String}
    {result : Option LoginTaskRecord} (hkey : Keyed (·.id) db.tasks) (hnamed : attemptId ≠ "")
    (h : db.reserveRetry enterpriseId task attemptId now = .ok (result, db')) :
    Move (.reserveRetry enterpriseId task attemptId now) db db' := by
  obtain ⟨t, ht, -, hid, hfailed, -, hclaim, hnew, hidle, -, rfl⟩ := reserveRetry_ok hkey h
  refine Move.retry t _ _ rfl ht hid.symm hfailed hclaim hnew hidle ?_ ?_ ?_ rfl
  · exact fun _ => ⟨rfl, rfl, rfl⟩
  · exact ⟨rfl, hnamed, hid.symm, rfl, "preparing", rfl, by decide, .inl rfl⟩
  · rw [hid]
    rfl

/-! Writing an active task and its current attempt. -/

/-- A statement on an active task, guarded by its current attempt, and the same on the attempt. -/
theorem names_advance {attemptId : String} {p : TaskRow → Bool} {f : TaskRow → TaskRow}
    {g : AttemptRow → AttemptRow} (hkey : Keyed (·.id) db.tasks)
    (hp : ∀ t, p t = true → t.status.active = true) (hf : KeepsTask f) (hg : KeepsAttempt g)
    (hmirror : ∀ t a, p t = true → Mirrors t a → Mirrors (f t) (g a))
    (h : (db.updateTasks (fun row => Db.names enterpriseId id attemptId row && p row) f).2 = true) :
    Move c db ((db.updateTasks (fun row => Db.names enterpriseId id attemptId row && p row) f).1
      |>.updateAttempt attemptId g) := by
  obtain ⟨t, ht, hid, hguard, hset⟩ := updateTasks_changed id hkey
    (fun row hrow => names_id (Bool.and_eq_true_iff.mp hrow).1) h
  obtain ⟨hnames, hpt⟩ := Bool.and_eq_true_iff.mp hguard
  rw [hset]
  exact .advance t attemptId f g ht (hp t hpt) (names_current hnames) hf hg fun a => hmirror t a hpt

theorem setStage_move {attemptId stage : String} (hkey : Keyed (·.id) db.tasks)
    (hstage : stage ≠ "deleting") :
    db.setStage enterpriseId id attemptId stage now = db
      ∨ Move c db (db.setStage enterpriseId id attemptId stage now) := by
  unfold Db.setStage
  cases hchanged : (db.updateTasks (fun row => Db.names enterpriseId id attemptId row
    && row.status.active) fun row => { row with stage := some stage, stageUpdatedAt := some now }).2 with
  | false => exact .inl (by simpa [hchanged] using updateTasks_unchanged hchanged)
  | true =>
      right
      simp only [hchanged, Bool.not_true, Bool.false_eq_true, if_false]
      refine names_advance hkey (fun _ h => h) ?_ ?_ ?_ hchanged
      · exact fun _ => ⟨rfl, rfl, rfl⟩
      · exact fun _ => ⟨rfl, rfl, rfl, rfl⟩
      · intro t a _ hm
        exact ⟨hm.current, hm.named, hm.owner, hm.status, stage, rfl, hstage, .inl rfl⟩

theorem markRunning_move {logPath : String} {attemptId : Option String}
    (hkey : Keyed (·.id) db.tasks) :
    (db.markRunning enterpriseId id logPath attemptId now).2 = db
      ∨ Move c db (db.markRunning enterpriseId id logPath attemptId now).2 := by
  unfold Db.markRunning
  cases truthy (attemptId.or (db.currentAttempt enterpriseId id)) with
  | none => exact .inl rfl
  | some attemptId =>
      cases hchanged : (db.updateTasks (fun row => Db.names enterpriseId id attemptId row
        && row.status = .pending) fun row => { row with
          status := .running, attempts := row.attempts + 1, startedAt := some now
          finishedAt := none, failureReason := none, logPath := some logPath }).2 with
      | false => exact .inl (by simpa [hchanged] using updateTasks_unchanged hchanged)
      | true =>
          right
          simp only [hchanged, Bool.not_true, Bool.false_eq_true, if_false]
          refine names_advance hkey ?_ ?_ ?_ ?_ hchanged
          · intro t hpending
            simp [of_decide_eq_true hpending, TaskStatus.active]
          · exact fun _ => ⟨rfl, rfl, rfl⟩
          · exact fun _ => ⟨rfl, rfl, rfl, rfl⟩
          · intro t a hpending hm
            obtain ⟨s, hs, hne, hts | ⟨-, -, hfinished⟩⟩ := hm.stage
            · exact ⟨hm.current, hm.named, hm.owner, rfl, s, hs, hne, .inl hts⟩
            · simp [of_decide_eq_true hpending, TaskStatus.active] at hfinished

theorem finishAttempt_move {attemptId reason code : Option String} {status : FinishedStatus}
    (hkey : Keyed (·.id) db.tasks) :
    (db.finishAttempt enterpriseId id attemptId status reason code now).2 = db
      ∨ Move c db (db.finishAttempt enterpriseId id attemptId status reason code now).2 := by
  unfold Db.finishAttempt
  cases truthy attemptId with
  | none => exact .inl rfl
  | some attemptId =>
      cases hchanged : (db.updateTasks (fun row => Db.names enterpriseId id attemptId row
        && row.status.active) fun row => { row with
          status := status.status, finishedAt := some now, failureReason := reason
          failureCode := code, stage := some status.status.text, stageUpdatedAt := some now }).2 with
      | false => exact .inl (by simpa [hchanged] using updateTasks_unchanged hchanged)
      | true =>
          right
          simp only [hchanged, Bool.not_true, Bool.false_eq_true, if_false]
          refine names_advance hkey (fun _ h => h) ?_ ?_ ?_ hchanged
          · exact fun _ => ⟨rfl, rfl, rfl⟩
          · exact fun _ => ⟨rfl, rfl, rfl, rfl⟩
          · intro t a _ hm
            have hne : status.status.text ≠ "deleting" := by cases status <;> decide
            exact ⟨hm.current, hm.named, hm.owner, rfl, _, rfl, hne, .inl rfl⟩

/-- A cancellation request is about the task `getTask` finds, and about its current attempt. -/
theorem requestCancellation_eq (enterpriseId id : String) (hkey : Keyed (·.id) db.tasks)
    (hmirrored : ∀ t ∈ db.tasks, ∃ a ∈ db.attempts, Mirrors t a) :
    (db.getTask enterpriseId id = none ∧ db.requestCancellation enterpriseId id = (none, db))
    ∨ ∃ t ∈ db.tasks, ∃ a ∈ db.attempts, t.enterpriseId = enterpriseId ∧ t.id = id ∧ Mirrors t a ∧
      ((t.status.active = false
        ∧ db.requestCancellation enterpriseId id = (db.getTask enterpriseId id, db))
      ∨ (t.status.active = true ∧ ∃ f : TaskRow → TaskRow, KeepsTask f
        ∧ (∀ r, (f r).oauthAttemptId = r.oauthAttemptId)
        ∧ (f t).status = .cancelling ∧ (f t).stage = t.stage ∧ (f t).priorStage = t.priorStage
        ∧ (db.requestCancellation enterpriseId id).2
            = (db.setTask t.id f).updateAttempt a.id (fun a => { a with status := .cancelling })
        ∧ (db.requestCancellation enterpriseId id).1
            = (db.requestCancellation enterpriseId id).2.getTask enterpriseId id)) := by
  unfold Db.requestCancellation
  cases hchanged : (db.updateTasks (fun row => row.enterpriseId = enterpriseId && row.id = id
      && (row.status = .pending || row.status = .running))
    fun row => { row with status := .cancelling }).2 with
  | true =>
      obtain ⟨t, ht, hid, hguard, hset⟩ := updateTasks_changed id hkey
        (fun row hrow => by simp_all) hchanged
      simp only [Bool.and_eq_true, Bool.or_eq_true, decide_eq_true_eq] at hguard
      obtain ⟨⟨henterprise, -⟩, hopen⟩ := hguard
      have hactive : t.status.active = true := by
        rcases hopen with h | h <;> simp [h, TaskStatus.active]
      obtain ⟨a, ha, hm⟩ := hmirrored t ht
      have hmem : { t with status := .cancelling } ∈
          (db.setTask t.id fun row => { row with status := .cancelling }).tasks :=
        mem_setTask.mpr ⟨t, ht, by simp⟩
      have hkeeps : KeepsTask fun row => { row with status := .cancelling } :=
        fun _ => ⟨rfl, rfl, rfl⟩
      have hget := getTask_of_mem (setTask_keyed hkey hkeeps) hmem
      obtain rfl := henterprise
      obtain rfl := hid
      refine .inr ⟨t, ht, a, ha, rfl, rfl, hm, .inr ⟨hactive, _, hkeeps, fun _ => rfl, rfl, rfl, rfl,
        ?_, rfl⟩⟩
      simp only [hset, hget, mapRow, hm.current, truthy_some hm.named]
      rfl
  | false =>
      simp only [updateTasks_unchanged hchanged]
      cases hget : db.getTask enterpriseId id with
      | none => exact .inl ⟨rfl, by simp [hget]⟩
      | some task =>
          obtain ⟨t, ht, rfl, rfl, rfl⟩ := getTask_eq_some hget
          obtain ⟨a, ha, hm⟩ := hmirrored t ht
          refine .inr ⟨t, ht, a, ha, rfl, rfl, hm, ?_⟩
          by_cases hstatus : t.status = .cancelling
          · refine .inr ⟨by simp [hstatus, TaskStatus.active], fun r => r, fun _ => ⟨rfl, rfl, rfl⟩,
              fun _ => rfl, hstatus, rfl, rfl, ?_, trivial⟩
            simp [setTask_self, mapRow, hstatus, hm.current, truthy_some hm.named]
          · left
            have hidle : t.status.active = false := by
              have hnone : ¬∃ r ∈ db.tasks, (r.enterpriseId = t.enterpriseId && r.id = t.id
                  && (r.status = .pending || r.status = .running)) = true := by
                rw [← List.any_eq_true]
                intro hany
                rw [Db.updateTasks] at hchanged
                simp only [hany] at hchanged
                cases hchanged
              cases hst : t.status with
              | pending => exact absurd ⟨t, ht, by simp [hst]⟩ hnone
              | running => exact absurd ⟨t, ht, by simp [hst]⟩ hnone
              | cancelling => exact absurd hst hstatus
              | success => rfl
              | failed => rfl
              | cancelled => rfl
            refine ⟨hidle, ?_⟩
            simp [mapRow, hstatus, hget]

theorem requestCancellation_move (hkey : Keyed (·.id) db.tasks)
    (hmirrored : ∀ t ∈ db.tasks, ∃ a ∈ db.attempts, Mirrors t a) :
    (db.requestCancellation enterpriseId id).2 = db
      ∨ Move c db (db.requestCancellation enterpriseId id).2 := by
  rcases requestCancellation_eq enterpriseId id hkey hmirrored with ⟨-, heq⟩ |
    ⟨t, ht, a, -, -, -, hm, ⟨-, heq⟩ | ⟨hactive, f, hf, hcurrent, hstatus, hstage, hprior, heq, -⟩⟩
  · exact .inl (congrArg Prod.snd heq)
  · exact .inl (congrArg Prod.snd heq)
  · right
    rw [heq]
    refine .advance t a.id f _ ht hactive hm.current hf (fun _ => ⟨rfl, rfl, rfl, rfl⟩) ?_
    intro a' hm'
    obtain ⟨s, hs, hne, hts | ⟨-, -, hfinished⟩⟩ := hm'.stage
    · exact ⟨(hcurrent t).trans hm'.current, hm'.named, hm'.owner.trans (hf t).1.symm, hstatus.symm,
        s, hs, hne, .inl (hstage.trans hts)⟩
    · simp [hactive] at hfinished

theorem claimTaskDeletion_move :
    (db.claimTaskDeletion enterpriseId id).2 = db
      ∨ Move c db (db.claimTaskDeletion enterpriseId id).2 := by
  unfold Db.claimTaskDeletion
  cases db.getTask enterpriseId id with
  | none => exact .inl rfl
  | some task =>
      right
      refine .restage _ _ (fun _ => ⟨rfl, rfl, rfl⟩) ?_ ?_
      · intro t ht
        simp_all
      · intro t a ht hm
        simp only [Bool.and_eq_true, Bool.not_eq_true', decide_eq_true_eq] at ht
        obtain ⟨⟨-, hfinished⟩, hstage⟩ := ht
        obtain ⟨s, hs, hne, hts | ⟨hts, -⟩⟩ := hm.stage
        · exact ⟨hm.current, hm.named, hm.owner, hm.status, s, hs, hne, .inr ⟨rfl, hts, hfinished⟩⟩
        · simp [hts] at hstage

theorem releaseTaskDeletion_move {id : Option String} :
    Move c db (db.releaseTaskDeletion enterpriseId id) := by
  refine .restage _ _ (fun _ => ⟨rfl, rfl, rfl⟩) ?_ ?_
  · intro t ht
    simp_all
  · intro t a ht hm
    simp only [Bool.and_eq_true, Bool.not_eq_true', decide_eq_true_eq] at ht
    obtain ⟨s, hs, hne, hts | ⟨-, hprior, -⟩⟩ := hm.stage
    · rw [ht.1.1.2, Option.some.injEq] at hts
      exact absurd hts.symm hne
    · exact ⟨hm.current, hm.named, hm.owner, hm.status, s, hs, hne, .inl (by simp [hprior])⟩

theorem deleteTask_move (hkey : Keyed (·.id) db.tasks) :
    (db.deleteTask enterpriseId id).2 = db
      ∨ Move (.deleteTask enterpriseId id) db (db.deleteTask enterpriseId id).2 := by
  unfold Db.deleteTask
  cases hget : db.getTask enterpriseId id with
  | none => exact .inl rfl
  | some task =>
      obtain ⟨t, ht, rfl, rfl, rfl⟩ := getTask_eq_some hget
      cases hactive : t.status.active with
      | true => exact .inl (by simp [mapRow, hactive])
      | false =>
          right
          have hguard : ∀ r ∈ db.tasks, (r.enterpriseId = t.enterpriseId && r.id = t.id
              && !r.status.active) = decide (r.id = t.id) := by
            intro r hr
            by_cases hid : r.id = t.id
            · simp [hkey.eq hr ht hid, hactive]
            · simp [hid]
          have htasks : db.tasks.filter (fun r => !(r.enterpriseId = t.enterpriseId && r.id = t.id
              && !r.status.active)) = db.tasks.filter (·.id ≠ t.id) :=
            List.filter_congr fun r hr => by simp only [hguard r hr, decide_not]
          have howned : ∀ a : AttemptRow, (db.tasks.any fun r => r.enterpriseId = t.enterpriseId
              && r.id = t.id && !r.status.active && r.id == a.taskId) = decide (a.taskId = t.id) := by
            intro a
            rw [Bool.eq_iff_iff, List.any_eq_true, decide_eq_true_eq]
            constructor
            · rintro ⟨r, -, h⟩
              simp only [Bool.and_eq_true, decide_eq_true_eq, beq_iff_eq] at h
              rw [← h.2, h.1.1.2]
            · intro h
              exact ⟨t, ht, by simp [hactive, h]⟩
          have hattempts : db.attempts.filter (fun a => !(db.tasks.any fun r =>
              r.enterpriseId = t.enterpriseId && r.id = t.id && !r.status.active && r.id == a.taskId))
              = db.attempts.filter (·.taskId ≠ t.id) :=
            List.filter_congr fun a _ => by simp only [howned a, decide_not]
          simp only [mapRow, hactive, Db.deleteTasks, htasks, hattempts]
          exact .delete t rfl ht hactive

/-- What holds of the arguments of a call. The attempt ids come from a request that must name one or
from `randomUUID`, as do the task ids, which are new; `reserveRetry` gets a record that `getTask`
has returned; no caller sets the stage `deleting`. -/
def Call.Admissible (history : List Db) : Call → Prop
  | .createTask _ id input _ =>
      input.oauthAttemptId ≠ "" ∧ ∀ db ∈ history, ∀ t ∈ db.tasks, t.id ≠ id
  | .reserveRetry _ task attemptId _ =>
      attemptId ≠ "" ∧ ∃ db ∈ history, ∃ enterpriseId, db.getTask enterpriseId task.id = some task
  | .setStage _ _ _ stage _ => stage ≠ "deleting"
  | _ => True

/-- A call changes nothing or makes one move. -/
theorem exec_move {history : List Db} (hkey : Keyed (·.id) db.tasks)
    (hmirrored : ∀ t ∈ db.tasks, ∃ a ∈ db.attempts, Mirrors t a) (hc : c.Admissible history) :
    c.exec db = db ∨ Move c db (c.exec db) := by
  cases c with
  | createTask enterpriseId id input now =>
      cases hrun : db.createTask enterpriseId id input now with
      | error e => exact .inl (by simp [Call.exec, settle, hrun])
      | ok result => simpa [Call.exec, settle, hrun] using createTask_move hc.1 hrun
  | reserveRetry enterpriseId task attemptId now =>
      cases hrun : db.reserveRetry enterpriseId task attemptId now with
      | error e => exact .inl (by simp [Call.exec, settle, hrun])
      | ok result => exact .inr (by simpa [Call.exec, settle, hrun] using reserveRetry_move hkey hc.1 hrun)
  | setStage enterpriseId id attemptId stage now => exact setStage_move hkey hc
  | markRunning enterpriseId id logPath attemptId now => exact markRunning_move hkey
  | markSuccess enterpriseId id attemptId now => exact finishAttempt_move hkey
  | markFailed enterpriseId id reason attemptId code now => exact finishAttempt_move hkey
  | requestCancellation enterpriseId id => exact requestCancellation_move hkey hmirrored
  | markCancelled enterpriseId id attemptId now => exact finishAttempt_move hkey
  | claimTaskDeletion enterpriseId id => exact claimTaskDeletion_move
  | releaseTaskDeletion enterpriseId id => exact .inr releaseTaskDeletion_move
  | deleteTask enterpriseId id => exact deleteTask_move hkey

end Calls

end GhcpConsole.Login
