import Mathlib.Data.List.MinMax
import GhcpConsole.Lib.Table

/-!
# Login tasks

The tables `login_tasks` and `login_task_attempts` and the functions of the repository module that
read and write them. A statement is a function of the database; an update answers whether it has
changed a row (`changes > 0`). A transaction that throws leaves the database as it was, so a
function that can throw returns either an error or its result with the new database.
-/

namespace GhcpConsole.Login

/-! ## Rows and records -/

inductive TaskStatus
  | pending | running | cancelling | success | failed | cancelled
deriving DecidableEq, Repr

namespace TaskStatus

/-- The text in the column. -/
def text : TaskStatus → String
  | pending => "pending"
  | running => "running"
  | cancelling => "cancelling"
  | success => "success"
  | failed => "failed"
  | cancelled => "cancelled"

/-- `ACTIVE_STATUSES`; the other three are `FINISHED_STATUSES`. -/
def active : TaskStatus → Bool
  | pending | running | cancelling => true
  | success | failed | cancelled => false

end TaskStatus

inductive FinishedStatus
  | success | failed | cancelled
deriving DecidableEq, Repr

def FinishedStatus.status : FinishedStatus → TaskStatus
  | success => .success
  | failed => .failed
  | cancelled => .cancelled

inductive SsoType
  | azure | custom
deriving DecidableEq, Repr

structure TaskRow where
  id : String
  enterpriseId : String
  identity : String
  ssoUser : String
  ghLogin : Option String
  oauthAttemptId : Option String
  ssoType : SsoType
  status : TaskStatus
  attempts : Nat
  failureReason : Option String
  logPath : Option String
  createdAt : Nat
  startedAt : Option Nat
  finishedAt : Option Nat
  stage : Option String
  stageUpdatedAt : Option Nat
  queuedAt : Option Nat
  failureCode : Option String
  /-- The stage a deletion claim has overwritten. -/
  priorStage : Option String
deriving DecidableEq, Repr

structure AttemptRow where
  id : String
  taskId : String
  attemptNumber : Nat
  status : TaskStatus
  stage : Option String
  stageUpdatedAt : Option Nat
  queuedAt : Nat
  startedAt : Option Nat
  finishedAt : Option Nat
  failureReason : Option String
  failureCode : Option String
  logPath : Option String
  historyIncomplete : Bool
deriving DecidableEq, Repr

structure LoginTaskRecord where
  id : String
  enterpriseId : String
  identity : String
  ssoUser : String
  ghLogin : Option String
  oauthAttemptId : Option String
  ssoType : SsoType
  status : TaskStatus
  attempts : Nat
  failureReason : Option String
  logPath : Option String
  createdAt : Nat
  startedAt : Option Nat
  finishedAt : Option Nat
  stage : Option String
  stageUpdatedAt : Option Nat
  queuedAt : Option Nat
  failureCode : Option String
deriving DecidableEq, Repr

structure LoginAttemptDto extends LoginTaskRecord where
  taskId : String
  attemptNumber : Nat
  historyIncomplete : Bool
deriving DecidableEq, Repr

structure CreateTaskInput where
  identity : String
  ssoUser : String
  ghLogin : String
  oauthAttemptId : String
  ssoType : SsoType
deriving DecidableEq, Repr

inductive TaskError
  /-- `HttpApiError(status, code, message)`. -/
  | http (status : Nat) (code message : String)
  /-- A violated primary key, unique index or foreign key. -/
  | constraint
deriving DecidableEq, Repr

/-- A value `if (!attemptId)` lets through. -/
def truthy (attemptId : Option String) : Option String := attemptId.filter (· ≠ "")

def mapRow (row : TaskRow) : LoginTaskRecord :=
  { id := row.id, enterpriseId := row.enterpriseId, identity := row.identity
    ssoUser := row.ssoUser, ghLogin := row.ghLogin, oauthAttemptId := row.oauthAttemptId
    ssoType := row.ssoType, status := row.status, attempts := row.attempts
    failureReason := row.failureReason, logPath := row.logPath, createdAt := row.createdAt
    startedAt := row.startedAt, finishedAt := row.finishedAt, stage := row.stage
    stageUpdatedAt := row.stageUpdatedAt, queuedAt := row.queuedAt, failureCode := row.failureCode }

def mapAttempt (task : LoginTaskRecord) (row : AttemptRow) : LoginAttemptDto :=
  let legacy := row.historyIncomplete && row.id == "legacy-" ++ task.id
  { task with
    id := row.id, taskId := task.id
    oauthAttemptId := if legacy then none else some row.id
    attemptNumber := row.attemptNumber, status := row.status, stage := row.stage
    stageUpdatedAt := row.stageUpdatedAt, queuedAt := some row.queuedAt
    startedAt := row.startedAt, finishedAt := row.finishedAt
    failureReason := row.failureReason, failureCode := row.failureCode, logPath := row.logPath
    historyIncomplete := row.historyIncomplete }

/-! ## Tables -/

structure Db where
  /-- The ids in `login_enterprises`, which `enterprise_id` refers to. -/
  enterprises : List String
  tasks : List TaskRow
  attempts : List AttemptRow
deriving DecidableEq, Repr

namespace Db

/-- `UPDATE login_tasks SET ... WHERE <guard>`. -/
def updateTasks (db : Db) (guard : TaskRow → Bool) (set : TaskRow → TaskRow) : Db × Bool :=
  ({ db with tasks := db.tasks.map fun row => if guard row then set row else row },
    db.tasks.any guard)

/-- `UPDATE login_task_attempts SET ... WHERE id = ?`. -/
def updateAttempt (db : Db) (id : String) (set : AttemptRow → AttemptRow) : Db :=
  { db with attempts := db.attempts.map fun row => if row.id = id then set row else row }

def insertTaskRow (db : Db) (row : TaskRow) : Except TaskError Db :=
  if db.enterprises.contains row.enterpriseId && !db.tasks.any (·.id == row.id) then
    .ok { db with tasks := db.tasks ++ [row] }
  else .error .constraint

def insertAttemptRow (db : Db) (row : AttemptRow) : Except TaskError Db :=
  if db.tasks.any (·.id == row.taskId) && !db.attempts.any (·.id == row.id)
      && !db.attempts.any fun a => a.taskId == row.taskId && a.attemptNumber == row.attemptNumber then
    .ok { db with attempts := db.attempts ++ [row] }
  else .error .constraint

/-- `DELETE FROM login_tasks WHERE <guard>`; the attempts go with their task. -/
def deleteTasks (db : Db) (guard : TaskRow → Bool) : Db × Bool :=
  ({ db with
      tasks := db.tasks.filter fun row => !guard row
      attempts := db.attempts.filter fun a => !db.tasks.any fun row => guard row && row.id == a.taskId },
    db.tasks.any guard)

/-! ## Reads -/

/-- Identities are global (Proxy's account key). -/
def hasActiveTask (db : Db) (identity : String) : Bool :=
  db.tasks.any fun row => row.identity == identity && row.status.active

def getTask (db : Db) (enterpriseId id : String) : Option LoginTaskRecord :=
  (db.tasks.find? fun row => row.enterpriseId == enterpriseId && row.id == id).map mapRow

structure AttemptOwner where
  taskId : String
  enterpriseId : String
deriving DecidableEq, Repr

def attemptOwner (db : Db) (attemptId : String) : Option AttemptOwner :=
  (db.attempts.filter (·.id == attemptId)).findSome? fun attempt =>
    (db.tasks.find? (·.id == attempt.taskId)).map fun task =>
      { taskId := attempt.taskId, enterpriseId := task.enterpriseId }

def listAttempts (db : Db) (enterpriseId id : String) : List LoginAttemptDto :=
  match db.getTask enterpriseId id with
  | none => []
  | some task =>
      ((db.attempts.filter (·.taskId == id)).mergeSort
        fun a b => b.attemptNumber ≤ a.attemptNumber).map (mapAttempt task)

/-- The task as of that attempt; an attempt of another enterprise's task is not found. -/
def getTaskByAttempt (db : Db) (enterpriseId attemptId : String) : Option LoginTaskRecord :=
  match db.attemptOwner attemptId with
  | none => none
  | some owner =>
      if owner.enterpriseId ≠ enterpriseId then none
      else
        ((db.listAttempts enterpriseId owner.taskId).find? (·.id == attemptId)).map fun attempt =>
          { attempt.toLoginTaskRecord with id := attempt.taskId, enterpriseId := enterpriseId }

/-! ## Creating a task -/

def isSameMapping (task : LoginTaskRecord) (input : CreateTaskInput) : Bool :=
  task.oauthAttemptId == some input.oauthAttemptId
    && task.identity == input.identity
    && task.ssoUser == input.ssoUser
    && task.ghLogin == some input.ghLogin
    && task.ssoType == input.ssoType

def existingTaskForAttempt (db : Db) (enterpriseId : String) (owner : AttemptOwner)
    (input : CreateTaskInput) : Except TaskError LoginTaskRecord :=
  let existing :=
    if owner.enterpriseId = enterpriseId then db.getTaskByAttempt enterpriseId input.oauthAttemptId
    else none
  let conflict := TaskError.http 409 "attempt_conflict"
    "The authorization attempt belongs to a different account mapping."
  match existing with
  | none => .error conflict
  | some task => if isSameMapping task input then .ok task else .error conflict

/-- The rows `insertTask` brings. -/
def newTask (enterpriseId id : String) (input : CreateTaskInput) (now : Nat) : TaskRow :=
  { id := id, enterpriseId := enterpriseId, identity := input.identity
    ssoUser := input.ssoUser, ghLogin := some input.ghLogin
    oauthAttemptId := some input.oauthAttemptId, ssoType := input.ssoType
    status := .pending, attempts := 0, failureReason := none, logPath := none
    createdAt := now, startedAt := none, finishedAt := none, stage := some "queued"
    stageUpdatedAt := some now, queuedAt := some now, failureCode := none, priorStage := none }

/-- An attempt row as both inserts write it: the columns they do not name have their defaults. -/
def newAttempt (id taskId : String) (attemptNumber : Nat) (stage : String) (now : Nat) : AttemptRow :=
  { id := id, taskId := taskId, attemptNumber := attemptNumber, status := .pending
    stage := some stage, stageUpdatedAt := some now, queuedAt := now, startedAt := none
    finishedAt := none, failureReason := none, failureCode := none, logPath := none
    historyIncomplete := false }

def insertTask (db : Db) (enterpriseId id : String) (input : CreateTaskInput) (now : Nat) :
    Except TaskError Db := do
  let db ← db.insertTaskRow (newTask enterpriseId id input now)
  db.insertAttemptRow (newAttempt input.oauthAttemptId id 1 "queued" now)

def taskAlreadyActive : TaskError :=
  .http 409 "task_already_active" "This account already has an active login task."

/-- Creates the task of an authorization attempt, or returns it when the same attempt is submitted
again with the same mapping. `id` is what `newTaskId` answers. -/
def createTask (db : Db) (enterpriseId id : String) (input : CreateTaskInput) (now : Nat) :
    Except TaskError (Option LoginTaskRecord × Db) :=
  match db.attemptOwner input.oauthAttemptId with
  | some owner => do
      let task ← db.existingTaskForAttempt enterpriseId owner input
      return (some task, db)
  | none => do
      if db.hasActiveTask input.identity then throw taskAlreadyActive
      let db ← db.insertTask enterpriseId id input now
      return (db.getTask enterpriseId id, db)

/-! ## Retrying a task -/

/-- `COALESCE(MAX(attempt_number), 0) + 1`. -/
def nextNumber (db : Db) (taskId : String) : Nat :=
  ((db.attempts.filter (·.taskId == taskId)).map (·.attemptNumber)).foldr max 0 + 1

def insertNextAttempt (db : Db) (taskId attemptId : String) (now : Nat) : Except TaskError Db :=
  db.insertAttemptRow (newAttempt attemptId taskId (db.nextNumber taskId) "preparing" now)

/-- What `reserveRetry` makes of the task row. -/
def retried (attemptId : String) (now : Nat) (row : TaskRow) : TaskRow :=
  { row with
    oauthAttemptId := some attemptId, status := .pending, stage := some "preparing"
    stageUpdatedAt := some now, queuedAt := some now, startedAt := none, finishedAt := none
    failureReason := none, failureCode := none, logPath := none }

def reserveRetry (db : Db) (enterpriseId : String) (task : LoginTaskRecord) (attemptId : String)
    (now : Nat) : Except TaskError (Option LoginTaskRecord × Db) := do
  if db.hasActiveTask task.identity then throw taskAlreadyActive
  let (db, changed) := db.updateTasks
    (fun row => row.enterpriseId = enterpriseId && row.id = task.id && row.status = .failed
      && row.oauthAttemptId = task.oauthAttemptId && row.stage ≠ some "deleting")
    (retried attemptId now)
  if !changed then
    throw (.http 409 "task_changed" "The task changed or is not failed. Refresh before retrying.")
  let db ← db.insertNextAttempt task.id attemptId now
  return (db.getTask enterpriseId task.id, db)

/-! ## The course of an attempt -/

/-- `WHERE enterprise_id = ? AND id = ? AND oauth_attempt_id = ?`. -/
def names (enterpriseId id attemptId : String) (row : TaskRow) : Bool :=
  row.enterpriseId = enterpriseId && row.id = id && row.oauthAttemptId = some attemptId

def setStage (db : Db) (enterpriseId id attemptId stage : String) (now : Nat) : Db :=
  let (db, changed) := db.updateTasks
    (fun row => names enterpriseId id attemptId row && row.status.active)
    fun row => { row with stage := some stage, stageUpdatedAt := some now }
  if !changed then db
  else db.updateAttempt attemptId fun a => { a with stage := some stage, stageUpdatedAt := some now }

/-- The default of the parameter `attemptId`. -/
def currentAttempt (db : Db) (enterpriseId id : String) : Option String :=
  (db.getTask enterpriseId id).bind (·.oauthAttemptId)

def markRunning (db : Db) (enterpriseId id logPath : String) (attemptId : Option String) (now : Nat) :
    Option LoginTaskRecord × Db :=
  match truthy (attemptId.or (db.currentAttempt enterpriseId id)) with
  | none => (none, db)
  | some attemptId =>
      let (db, changed) := db.updateTasks
        (fun row => names enterpriseId id attemptId row && row.status = .pending)
        fun row => { row with
          status := .running, attempts := row.attempts + 1, startedAt := some now
          finishedAt := none, failureReason := none, logPath := some logPath }
      if !changed then (none, db)
      else
        let db := db.updateAttempt attemptId fun a =>
          { a with status := .running, startedAt := some now, logPath := some logPath }
        (db.getTask enterpriseId id, db)

def finishAttempt (db : Db) (enterpriseId id : String) (attemptId : Option String)
    (status : FinishedStatus) (reason code : Option String) (now : Nat) :
    Option LoginTaskRecord × Db :=
  match truthy attemptId with
  | none => (db.getTask enterpriseId id, db)
  | some attemptId =>
      let (db, changed) := db.updateTasks
        (fun row => names enterpriseId id attemptId row && row.status.active)
        fun row => { row with
          status := status.status, finishedAt := some now, failureReason := reason
          failureCode := code, stage := some status.status.text, stageUpdatedAt := some now }
      let db := if !changed then db
        else db.updateAttempt attemptId fun a => { a with
          status := status.status, finishedAt := some now, failureReason := reason
          failureCode := code, stage := some status.status.text, stageUpdatedAt := some now }
      (db.getTask enterpriseId id, db)

def markSuccess (db : Db) (enterpriseId id : String) (attemptId : Option String) (now : Nat) :
    Option LoginTaskRecord × Db :=
  db.finishAttempt enterpriseId id (attemptId.or (db.currentAttempt enterpriseId id)) .success
    none none now

/-- Without a code it is `login_failed`. -/
def markFailed (db : Db) (enterpriseId id reason : String) (attemptId code : Option String)
    (now : Nat) : Option LoginTaskRecord × Db :=
  db.finishAttempt enterpriseId id (attemptId.or (db.currentAttempt enterpriseId id)) .failed
    (some reason) (some (code.getD "login_failed")) now

def markCancelled (db : Db) (enterpriseId id : String) (attemptId : Option String) (now : Nat) :
    Option LoginTaskRecord × Db :=
  db.finishAttempt enterpriseId id (attemptId.or (db.currentAttempt enterpriseId id)) .cancelled
    (some "Cancelled by request.") (some "cancelled") now

def requestCancellation (db : Db) (enterpriseId id : String) : Option LoginTaskRecord × Db :=
  let (db, _) := db.updateTasks
    (fun row => row.enterpriseId = enterpriseId && row.id = id
      && (row.status = .pending || row.status = .running))
    fun row => { row with status := .cancelling }
  let db := match db.getTask enterpriseId id with
    | none => db
    | some task =>
        if task.status ≠ .cancelling then db
        else match truthy task.oauthAttemptId with
          | none => db
          | some attemptId => db.updateAttempt attemptId fun a => { a with status := .cancelling }
  (db.getTask enterpriseId id, db)

/-! ## Deleting a task -/

inductive DeleteOutcome
  | deleted | notFound | notAllowed
deriving DecidableEq, Repr

def deleteTask (db : Db) (enterpriseId id : String) : DeleteOutcome × Db :=
  match db.getTask enterpriseId id with
  | none => (.notFound, db)
  | some task =>
      if task.status.active then (.notAllowed, db)
      else
        let (db, deleted) := db.deleteTasks fun row =>
          row.enterpriseId = enterpriseId && row.id = id && !row.status.active
        (if deleted then .deleted else .notAllowed, db)

inductive ClaimOutcome
  | claimed | notFound | notAllowed
deriving DecidableEq, Repr

def claimTaskDeletion (db : Db) (enterpriseId id : String) : ClaimOutcome × Db :=
  match db.getTask enterpriseId id with
  | none => (.notFound, db)
  | some _ =>
      let (db, changed) := db.updateTasks
        (fun row => row.enterpriseId = enterpriseId && row.id = id && !row.status.active
          && row.stage ≠ some "deleting")
        fun row => { row with priorStage := row.stage, stage := some "deleting" }
      (if changed then .claimed else .notAllowed, db)

/-- Releases the deletion claim of one task, or of every task of the enterprise without an id. -/
def releaseTaskDeletion (db : Db) (enterpriseId : String) (id : Option String) : Db :=
  (db.updateTasks
    (fun row => row.enterpriseId = enterpriseId && row.stage = some "deleting" && !row.status.active
      && (id.isNone || id = some row.id))
    fun row => { row with
      stage := some (row.priorStage.getD row.status.text), priorStage := none }).1

end Db

end GhcpConsole.Login
