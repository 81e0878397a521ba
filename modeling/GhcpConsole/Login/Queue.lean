import Mathlib.Data.Finset.Card
import GhcpConsole.Lib.Machine
import GhcpConsole.Login.TaskMoves

/-!
# The login queue

`LoginQueue`, `runLoginTask` and `retryTask` as one event machine. An event runs the code of one
process from one await to the next: a request arrives, an awaited call to Proxy or to the device
flow settles, or a callback of a settled promise runs. What an async function keeps across its
awaits is a thread of the state; threads are never removed, they are `finished`.

The requests sent to Proxy are logged in `outbox`, and a thread that awaits one keeps its number.
The other logs are read by no code: every database the process has seen, the payloads pushed, the
runs started and the attempts moved to `cancelling`.
-/

namespace GhcpConsole.Login

/-! ## Requests and threads -/

structure LoginTaskRequest where
  identity : String
  ssoUser : String
  ssoPassword : String
  ghLogin : String
  oauthAttemptId : String
  ssoType : SsoType
deriving DecidableEq, Repr

/-- What `enqueue` hands to `createTask`. -/
def LoginTaskRequest.input (request : LoginTaskRequest) : CreateTaskInput :=
  { identity := request.identity, ssoUser := request.ssoUser, ghLogin := request.ghLogin
    oauthAttemptId := request.oauthAttemptId, ssoType := request.ssoType }

/-- `RuntimeTaskPayload`. -/
structure Payload extends LoginTaskRequest where
  enterpriseId : String
  taskId : String
deriving DecidableEq, Repr

inductive CredentialMode
  | default | override
deriving DecidableEq, Repr

/-- What `prepareLoginRetry` asks Proxy for. -/
structure PrepareInput where
  enterpriseId : String
  identity : String
  attemptId : String
  ssoUser : String
  ghLogin : Option String
  ssoType : SsoType
  credentialMode : CredentialMode
  previousAttemptId : Option String
deriving DecidableEq, Repr

inductive ProxyRequest
  | prepareLoginRetry (input : PrepareInput)
  | saveCopilotOauthToken (enterpriseId identity attemptId token ghLogin : String)
  | markCopilotOauthFailed (enterpriseId identity attemptId reason : String)
deriving DecidableEq, Repr

inductive RetryPhase
  /-- Awaits `assertPoolTaskMutationAllowed`. -/
  | protecting (task : LoginTaskRecord)
  /-- Awaits `prepareLoginRetry`. -/
  | preparing (task reserved : LoginTaskRecord) (attemptId : String) (request : Nat)
  /-- Awaits the report of `releaseAttempt`. -/
  | releasing (request : Nat)
  | finished
deriving DecidableEq, Repr

/-- A call of `retryTask`. -/
structure Retry where
  enterpriseId : String
  id : String
  credentialMode : CredentialMode
  phase : RetryPhase
deriving DecidableEq, Repr

inductive RunPhase
  /-- Awaits `loginWithDeviceFlow`. -/
  | signingIn
  /-- Awaits `saveCopilotOauthToken`. -/
  | saving (request : Nat)
  /-- The promise of `runLoginTask` is settled, the callback of `catch` has not run. -/
  | returned
  | threw (message : String)
  /-- `failRun` awaits its report. -/
  | reporting (request : Nat)
  /-- The callback of `finally` has not run. -/
  | caught
  | finished
deriving DecidableEq, Repr

/-- A run of `start`. -/
structure Run where
  payload : Payload
  /-- `controller.signal.aborted`. -/
  aborted : Bool
  phase : RunPhase
deriving DecidableEq, Repr

inductive CancelPhase
  /-- Awaits the completion of that run, if there was one. -/
  | waiting (completion : Option Nat)
  | reporting (request : Nat)
  /-- The callback that leaves `cancelling` has not run. -/
  | leaving
  | finished
deriving DecidableEq, Repr

/-- A call of `finishCancellation`. -/
structure Cancellation where
  enterpriseId : String
  taskId : String
  identity : String
  attemptId : String
  phase : CancelPhase
deriving DecidableEq, Repr

/-- How `runLoginTask` goes up to its first await. -/
inductive RunOutcome
  | opens
  /-- The log file cannot be opened. -/
  | logFails (message : String)
  /-- The task is running and lacks a password, a login or an enterprise. -/
  | failsAtOnce (message code : String)
deriving DecidableEq, Repr

structure Env where
  /-- By the number of the run. -/
  outcome : Nat → RunOutcome
  logPath : Payload → String

/-- A start, with the runs under way and the limit by then. -/
structure Start where
  payload : Payload
  running : Nat
  limit : Nat
deriving DecidableEq, Repr

structure Process where
  db : Db
  /-- `getConcurrency()`. -/
  concurrency : Nat
  pending : List Payload
  active : Finset String
  cancelled : Finset (String × String)
  controllers : String → Option Nat
  completions : String → Option Nat
  cancelling : Finset String
  accepting : Bool
  retries : List Retry
  runs : List Run
  cancellations : List Cancellation
  outbox : List ProxyRequest
  past : List Db
  pushed : List Payload
  started : List Start
  moved : List String
  movedEarly : List String

namespace Process

def initial (enterprises : List String) (concurrency : Nat) : Process :=
  { db := { enterprises := enterprises, tasks := [], attempts := [] }, concurrency := concurrency
    pending := [], active := ∅, cancelled := ∅, controllers := fun _ => none
    completions := fun _ => none, cancelling := ∅, accepting := true, retries := [], runs := []
    cancellations := [], outbox := [], past := [], pushed := [], started := [], moved := []
    movedEarly := [] }

/-- A call of the repository. -/
def exec (s : Process) (c : Call) : Process := { s with db := c.exec s.db, past := s.db :: s.past }

def send (s : Process) (request : ProxyRequest) : Process := { s with outbox := s.outbox ++ [request] }

def setRetry (s : Process) (i : Nat) (phase : RetryPhase) : Process :=
  { s with retries := s.retries.modify i ({ · with phase := phase }) }

def setRun (s : Process) (j : Nat) (phase : RunPhase) : Process :=
  { s with runs := s.runs.modify j ({ · with phase := phase }) }

def setCancellation (s : Process) (k : Nat) (phase : CancelPhase) : Process :=
  { s with cancellations := s.cancellations.modify k ({ · with phase := phase }) }

/-! ## Starting runs -/

def isBusy (s : Process) (id : String) : Bool := id ∈ s.active || s.pending.any (·.taskId == id)

def isRunnable (s : Process) (task : LoginTaskRecord) (payload : Payload) : Bool :=
  if (payload.taskId, payload.oauthAttemptId) ∈ s.cancelled then false
  else task.oauthAttemptId = some payload.oauthAttemptId && task.status = .pending

/-- `runLoginTask` up to its first await, and where that leaves its promise. -/
def runLoginTask (env : Env) (s : Process) (payload : Payload) (now : Nat) : Process × RunPhase :=
  match env.outcome s.runs.length with
  | .logFails message => (s, .threw message)
  | outcome =>
      match (s.db.markRunning payload.enterpriseId payload.taskId (env.logPath payload)
          (some payload.oauthAttemptId) now).1 with
      | none => (s, .returned)
      | some _ =>
          let s := s.exec (.markRunning payload.enterpriseId payload.taskId (env.logPath payload)
            (some payload.oauthAttemptId) now)
          match outcome with
          | .failsAtOnce message code =>
              (s.exec (.markFailed payload.enterpriseId payload.taskId message
                (some payload.oauthAttemptId) (some code) now), .threw message)
          | _ => (s, .signingIn)

/-- The runs that have not left the queue. -/
def running (s : Process) : Nat := s.runs.countP fun run => run.phase ≠ .finished

def start (env : Env) (s : Process) (payload : Payload) (now : Nat) : Process :=
  let j := s.runs.length
  let s : Process := { s with
    active := insert payload.taskId s.active
    controllers := Function.update s.controllers payload.taskId (some j)
    started := s.started ++ [{ payload := payload, running := s.running, limit := s.concurrency }] }
  let (s, phase) := s.runLoginTask env payload now
  { s with
    runs := s.runs ++ [{ payload := payload, aborted := false, phase := phase }]
    completions := Function.update s.completions payload.taskId (some j) }

/-- The loop of `drain` from a list of pending payloads on. -/
def drainFrom (env : Env) (now : Nat) : List Payload → Process → Process
  | [], s => { s with pending := [] }
  | payload :: rest, s =>
      if s.active.card < s.concurrency then
        let s := { s with pending := rest }
        match s.db.getTask payload.enterpriseId payload.taskId with
        | none => drainFrom env now rest s
        | some task =>
            if s.isRunnable task payload then drainFrom env now rest (s.start env payload now)
            else drainFrom env now rest s
      else { s with pending := payload :: rest }

def drain (env : Env) (s : Process) (now : Nat) : Process :=
  if !s.accepting then s else drainFrom env now s.pending s

def push (s : Process) (payload : Payload) : Process :=
  { s with pending := s.pending ++ [payload], pushed := s.pushed ++ [payload] }

/-! ## Methods of the queue -/

def enqueue (env : Env) (s : Process) (enterpriseId id : String) (request : LoginTaskRequest)
    (now : Nat) : Process :=
  match s.db.createTask enterpriseId id request.input now with
  | .ok (some task, _) =>
      let s := s.exec (.createTask enterpriseId id request.input now)
      if s.isBusy task.id || task.status ≠ .pending || task.stage ≠ some "queued" then s
      else
        (s.push { request with enterpriseId := enterpriseId, taskId := task.id }).drain env now
  | _ => s

def retry (env : Env) (s : Process) (task : LoginTaskRecord) (request : LoginTaskRequest)
    (now : Nat) : Process :=
  match s.db.getTask task.enterpriseId task.id with
  | none => s
  | some current =>
      if current.status ≠ .pending || current.oauthAttemptId ≠ some request.oauthAttemptId then s
      else if s.isBusy task.id then s
      else
        let s := s.exec (.setStage task.enterpriseId task.id request.oauthAttemptId "queued" now)
        (s.push { request with enterpriseId := task.enterpriseId, taskId := task.id }).drain env now

/-- `this.controllers.get(id)?.abort()`. -/
def abort (s : Process) (id : String) : Process :=
  { s with
    runs := match s.controllers id with
      | none => s.runs
      | some j => s.runs.modify j ({ · with aborted := true }) }

/-- `cancel` goes on with a task it has moved to `cancelling`. -/
def callOff (s : Process) (enterpriseId id identity attemptId : String) : Process :=
  let s := ({ s with
    moved := s.moved ++ [attemptId]
    movedEarly := s.movedEarly ++
      if s.started.any (·.payload.oauthAttemptId == attemptId) then [] else [attemptId]
    cancelled := insert (id, attemptId) s.cancelled
    pending := s.pending.eraseP (·.taskId == id) }).abort id
  { s with
    cancelling := insert id s.cancelling
    cancellations :=
      if id ∈ s.cancelling then s.cancellations
      else s.cancellations ++
        [{ enterpriseId := enterpriseId, taskId := id, identity := identity, attemptId := attemptId
           phase := .waiting (s.completions id) }] }

def cancel (s : Process) (enterpriseId id : String) : Process :=
  let result := (s.db.requestCancellation enterpriseId id).1
  let s := s.exec (.requestCancellation enterpriseId id)
  match result with
  | none => s
  | some task =>
      if task.status ≠ .cancelling then s
      else
        match truthy task.oauthAttemptId with
        | none => s
        | some attemptId => s.callOff enterpriseId id task.identity attemptId

/-! ## Threads going on -/

/-- `retryTask` goes on after the pool has allowed the retry. -/
def retryReserves (s : Process) (i : Nat) (r : Retry) (task : LoginTaskRecord) (attemptId : String)
    (now : Nat) : Process :=
  match s.db.reserveRetry r.enterpriseId task attemptId now with
  | .ok (some reserved, _) =>
      let s := s.exec (.reserveRetry r.enterpriseId task attemptId now)
      let s := s.setRetry i (.preparing task reserved attemptId s.outbox.length)
      s.send (.prepareLoginRetry
        { enterpriseId := r.enterpriseId, identity := reserved.identity, attemptId := attemptId
          ssoUser := reserved.ssoUser, ghLogin := reserved.ghLogin, ssoType := reserved.ssoType
          credentialMode := r.credentialMode, previousAttemptId := task.oauthAttemptId })
  | _ => s.setRetry i .finished

/-- `releaseAttempt`. -/
def release (s : Process) (i : Nat) (task : LoginTaskRecord) (attemptId reason : String) : Process :=
  (s.setRetry i (.releasing s.outbox.length)).send
    (.markCopilotOauthFailed task.enterpriseId task.identity attemptId reason)

def retryRequest (task : LoginTaskRecord) (attemptId ssoPassword : String) : LoginTaskRequest :=
  { identity := task.identity, ssoUser := task.ssoUser, ssoPassword := ssoPassword
    ghLogin := task.ghLogin.getD "", oauthAttemptId := attemptId, ssoType := task.ssoType }

/-- `retryTask` goes on after Proxy has prepared the attempt. -/
def retryPrepared (env : Env) (s : Process) (i : Nat) (r : Retry) (task reserved : LoginTaskRecord)
    (attemptId ssoPassword : String) (now : Nat) : Process :=
  match s.db.getTask r.enterpriseId r.id with
  | none => s.release i task attemptId "Retry was cancelled before it started."
  | some current =>
      if current.status = .cancelling then (s.setRetry i .finished).cancel r.enterpriseId r.id
      else if current.status ≠ .pending || current.oauthAttemptId ≠ some attemptId then
        s.release i task attemptId "Retry was cancelled before it started."
      else
        (s.setRetry i .finished).retry env reserved (retryRequest reserved attemptId ssoPassword) now

/-- The `catch` of `retryTask`. -/
def retryFailed (s : Process) (i : Nat) (r : Retry) (task : LoginTaskRecord)
    (attemptId message code : String) (now : Nat) : Process :=
  let fails : Process :=
    (s.exec (.markFailed r.enterpriseId r.id message (some attemptId) (some code) now)).release i
      task attemptId message
  match s.db.getTask r.enterpriseId r.id with
  | none => fails
  | some current =>
      if current.status = .cancelling then (s.setRetry i .finished).cancel r.enterpriseId r.id
      else if current.status = .cancelled then s.setRetry i .finished
      else fails

/-- The `catch` of `runLoginTask`. -/
def runFails (s : Process) (j : Nat) (run : Run) (message code : String) (now : Nat) : Process :=
  if run.aborted then s.setRun j (.threw "Login task cancelled.")
  else
    (s.exec (.markFailed run.payload.enterpriseId run.payload.taskId message
      (some run.payload.oauthAttemptId) (some code) now)).setRun j (.threw message)

/-- `runLoginTask` goes on with a token. -/
def runSaves (s : Process) (j : Nat) (run : Run) (token : String) (now : Nat) : Process :=
  if run.aborted then s.setRun j (.threw "Login task cancelled.")
  else
    let p := run.payload
    let s := s.exec (.setStage p.enterpriseId p.taskId p.oauthAttemptId "saving-token" now)
    (s.setRun j (.saving s.outbox.length)).send
      (.saveCopilotOauthToken p.enterpriseId p.identity p.oauthAttemptId token p.ghLogin)

/-- The callbacks of `catch`, with `failRun`. -/
def runCaught (s : Process) (j : Nat) (run : Run) (message : String) (now : Nat) : Process :=
  if run.aborted then s.setRun j .caught
  else
    let p := run.payload
    let s := s.exec (.markFailed p.enterpriseId p.taskId message (some p.oauthAttemptId)
      (some "runner_failed") now)
    (s.setRun j (.reporting s.outbox.length)).send
      (.markCopilotOauthFailed p.enterpriseId p.identity p.oauthAttemptId message)

/-- The callback of `finally`. -/
def runFinishes (env : Env) (s : Process) (j : Nat) (run : Run) (now : Nat) : Process :=
  let id := run.payload.taskId
  ({ s.setRun j .finished with
    active := s.active.erase id
    controllers := Function.update s.controllers id none
    completions := Function.update s.completions id none }).drain env now

/-- `finishCancellation` goes on after the run. -/
def cancelWakes (s : Process) (k : Nat) (c : Cancellation) (now : Nat) : Process :=
  let closes : Bool := match s.db.getTask c.enterpriseId c.taskId with
    | none => false
    | some current => current.status = .cancelling && current.oauthAttemptId = some c.attemptId
  if !closes then
    { s.setCancellation k .leaving with cancelled := s.cancelled.erase (c.taskId, c.attemptId) }
  else
    let s := s.exec (.markCancelled c.enterpriseId c.taskId (some c.attemptId) now)
    (s.setCancellation k (.reporting s.outbox.length)).send
      (.markCopilotOauthFailed c.enterpriseId c.identity c.attemptId "Cancelled by request.")

/-- The promise a cancellation awaits is settled. -/
def settled (s : Process) : Option Nat → Bool
  | none => true
  | some j => match s.runs[j]? with
    | none => true
    | some run => run.phase = .finished

end Process

/-! ## Events -/

inductive Event
  | enqueue (enterpriseId id : String) (request : LoginTaskRequest) (now : Nat)
  /-- `retryTask` up to its first await; `sameProvider` is what `assertSameProvider` finds. -/
  | retryTask (enterpriseId id : String) (credentialMode : CredentialMode) (sameProvider : Bool)
  | cancel (enterpriseId id : String)
  | updateSettings (concurrency now : Nat)
  | stopAccepting
  /-- The pool answers a retry; `attemptId` is the UUID drawn next. -/
  | protectionAnswered (retry : Nat) (allowed : Bool) (attemptId : String) (now : Nat)
  /-- `prepareLoginRetry` answers with the password, or an error with its message and code. -/
  | preparationAnswered (retry : Nat) (answer : Except (String × String) String) (now : Nat)
  | releaseAnswered (retry : Nat)
  /-- The logger of a run reports a stage. -/
  | runStage (run : Nat) (stage : String) (now : Nat)
  | deviceFlowSettled (run : Nat) (token : Except (String × String) String) (now : Nat)
  /-- `saveCopilotOauthToken` settles; after it the log file may fail. -/
  | tokenSaved (run : Nat) (saved : Except String Unit) (logFailure : Option String) (now : Nat)
  | runCaught (run : Nat) (now : Nat)
  | runReported (run : Nat)
  | runFinished (run : Nat) (now : Nat)
  | cancelWoken (cancellation : Nat) (now : Nat)
  | cancelReported (cancellation : Nat)
  | cancelLeft (cancellation : Nat)

namespace Process

/-- The thread awaits an answer of Proxy. -/
def awaits (s : Process) : Event → Option Nat
  | .preparationAnswered i _ _ => match (s.retries[i]?).map Retry.phase with
    | some (.preparing _ _ _ request) => some request
    | _ => none
  | .releaseAnswered i => match (s.retries[i]?).map Retry.phase with
    | some (.releasing request) => some request
    | _ => none
  | .tokenSaved j _ _ _ => match (s.runs[j]?).map Run.phase with
    | some (.saving request) => some request
    | _ => none
  | .runReported j => match (s.runs[j]?).map Run.phase with
    | some (.reporting request) => some request
    | _ => none
  | .cancelReported k => match (s.cancellations[k]?).map Cancellation.phase with
    | some (.reporting request) => some request
    | _ => none
  | _ => none

def stepRetry (env : Env) (s : Process) : Event → Option Process
  | .retryTask enterpriseId id credentialMode sameProvider =>
      match s.db.getTask enterpriseId id with
      | none => some s
      | some task =>
          if s.isBusy id || !sameProvider then some s
          else
            some { s with retries := s.retries ++
              [{ enterpriseId := enterpriseId, id := id, credentialMode := credentialMode
                 phase := .protecting task }] }
  | .protectionAnswered i allowed attemptId now =>
      match s.retries[i]? with
      | some r =>
          match r.phase with
          | .protecting task =>
              if attemptId = "" then none
              else if allowed then some (s.retryReserves i r task attemptId now)
              else some (s.setRetry i .finished)
          | _ => none
      | none => none
  | .preparationAnswered i answer now =>
      match s.retries[i]? with
      | some r =>
          match r.phase with
          | .preparing task reserved attemptId _ =>
              match answer with
              | .ok ssoPassword => some (s.retryPrepared env i r task reserved attemptId ssoPassword now)
              | .error (message, code) => some (s.retryFailed i r task attemptId message code now)
          | _ => none
      | none => none
  | .releaseAnswered i =>
      match s.retries[i]? with
      | some r =>
          match r.phase with
          | .releasing _ => some (s.setRetry i .finished)
          | _ => none
      | none => none
  | _ => none

def stepRun (env : Env) (s : Process) (j : Nat) (run : Run) : Event → Option Process
  | .runStage _ stage now =>
      match run.phase with
      | .signingIn | .saving _ =>
          if stage = "deleting" then none
          else
            some (s.exec (.setStage run.payload.enterpriseId run.payload.taskId
              run.payload.oauthAttemptId stage now))
      | _ => none
  | .deviceFlowSettled _ token now =>
      match run.phase with
      | .signingIn =>
          match token with
          | .ok token => some (s.runSaves j run token now)
          | .error (message, code) => some (s.runFails j run message code now)
      | _ => none
  | .tokenSaved _ saved logFailure now =>
      match run.phase with
      | .saving _ =>
          match saved with
          | .error message => some (s.runFails j run message "token_write_failed" now)
          | .ok () =>
              let s := s.exec (.markSuccess run.payload.enterpriseId run.payload.taskId
                (some run.payload.oauthAttemptId) now)
              match logFailure with
              | none => some (s.setRun j .returned)
              | some message => some (s.runFails j run message "token_write_failed" now)
      | _ => none
  | .runCaught _ now =>
      match run.phase with
      | .returned => some (s.setRun j .caught)
      | .threw message => some (s.runCaught j run message now)
      | _ => none
  | .runReported _ =>
      match run.phase with
      | .reporting _ => some (s.setRun j .caught)
      | _ => none
  | .runFinished _ now =>
      match run.phase with
      | .caught => some (s.runFinishes env j run now)
      | _ => none
  | _ => none

def stepCancellation (s : Process) (k : Nat) (c : Cancellation) : Event → Option Process
  | .cancelWoken _ now =>
      match c.phase with
      | .waiting completion => if s.settled completion then some (s.cancelWakes k c now) else none
      | _ => none
  | .cancelReported _ =>
      match c.phase with
      | .reporting _ =>
          some { s.setCancellation k .leaving with
            cancelled := s.cancelled.erase (c.taskId, c.attemptId) }
      | _ => none
  | .cancelLeft _ =>
      match c.phase with
      | .leaving =>
          some { s.setCancellation k .finished with cancelling := s.cancelling.erase c.taskId }
      | _ => none
  | _ => none

/-- A task id drawn by `newTaskId`. -/
def fresh (s : Process) (id : String) : Bool :=
  (s.db :: s.past).all fun db => db.tasks.all (·.id ≠ id)

def step (env : Env) (s : Process) (e : Event) : Option Process :=
  match e with
  | .enqueue enterpriseId id request now =>
      if request.oauthAttemptId ≠ "" && s.fresh id then some (s.enqueue env enterpriseId id request now)
      else none
  | .cancel enterpriseId id => some (s.cancel enterpriseId id)
  | .updateSettings concurrency now => some ({ s with concurrency := concurrency }.drain env now)
  | .stopAccepting => some { s with accepting := false }
  | .retryTask .. | .protectionAnswered .. | .preparationAnswered .. | .releaseAnswered .. =>
      s.stepRetry env e
  | .runStage j .. | .deviceFlowSettled j .. | .tokenSaved j .. | .runCaught j .. | .runReported j
  | .runFinished j .. => (s.runs[j]?).bind fun run => s.stepRun env j run e
  | .cancelWoken k .. | .cancelReported k | .cancelLeft k =>
      (s.cancellations[k]?).bind fun c => s.stepCancellation k c e

end Process

end GhcpConsole.Login
