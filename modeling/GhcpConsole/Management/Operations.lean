import Mathlib.Logic.Function.Basic

/-!
# Batch operations

`OperationManager` as an event machine. An event is one piece of its code that runs without an await,
with the time at which it runs: a preview is stored, an execution is asked for, a worker's item comes
back, all workers have ended, the pause between two rounds is over, a refresh comes back. `perform` and
`refresh` return promises; what they settle with is part of the event. An operation keeps what was
asked of them and what came back.
-/

namespace GhcpConsole.Management

/-! ## Operations -/

inductive OperationItemStatus
  | pending | running | success | failed | skipped | cancelled | interrupted
deriving DecidableEq, Repr

structure OperationItem where
  id : String
  status : OperationItemStatus
  detail : Option String := none
  attemptId : Option String := none
  relatedTaskId : Option String := none
  revision : Option String := none
  label : Option String := none
  requiresPasswordOverride : Option Bool := none
deriving DecidableEq, Repr

inductive OperationStatus
  | preview | running | completed | interrupted
deriving DecidableEq, Repr

structure OperationOptions where
  assignCopilotSeat : Option Bool := none
  ssoType : Option String := none
deriving DecidableEq, Repr

structure ManagementOperation where
  id : String
  action : String
  status : OperationStatus
  items : List OperationItem
  createdAt : Nat
  updatedAt : Nat
  expiresAt : Nat
  options : OperationOptions
deriving DecidableEq, Repr

/-- What a promise is rejected with. -/
inductive Thrown
  /-- `HttpApiError(status, code, message)`. -/
  | http (status : Nat) (code message : String)
  | error (message : String)
  /-- No `Error`; `String(error)` throws where there is no text. -/
  | other (text : Option String)
deriving DecidableEq, Repr

def errorMessage : Thrown → Option String
  | .http _ _ message => some message
  | .error message => some message
  | .other text => text

abbrev Outcome : Type := Except Thrown OperationItem

def managementBatchLimit : Nat := 1000
def maxRefreshFailures : Nat := 10
def previewTtlMs : Nat := 600000
def resultTtlMs : Nat := 60 * 60 * 1000

/-! ## What runs for an operation -/

/-- Where a worker stands between two awaits. -/
inductive Worker
  | performing (index : Nat) (item : OperationItem)
  | done
  | failed
deriving DecidableEq, Repr

structure Working where
  workers : List Worker
  nextIndex : Nat
  stopped : Bool
deriving DecidableEq, Repr

/-- Where `run` stands; `failures` is the map of `awaitCompletion`. -/
inductive Phase
  | ended
  | working (w : Working)
  | delayed (round : Nat) (failures : Nat → Nat)
  | refreshing (round index : Nat) (current : OperationItem) (failures : Nat → Nat)

inductive Call
  | perform | refresh
deriving DecidableEq, Repr

/-- The answer to a call that was made with the item at an index. -/
structure Answer where
  call : Call
  index : Nat
  item : OperationItem
  outcome : Outcome

structure Managed where
  operation : ManagementOperation
  /-- The map of operations holds it. -/
  stored : Bool
  /-- `execute` was given a `refresh`. -/
  hasRefresh : Bool
  phase : Phase
  /-- The items as they were previewed. -/
  previewed : List OperationItem
  /-- The calls of `perform` with the index of the item, the last call first. -/
  performed : List (Nat × OperationItem)
  /-- What the calls of `perform` and `refresh` were answered with, the last answer first. -/
  answers : List Answer

namespace Managed

variable (now : Nat)

def setItem (m : Managed) (index : Nat) (item : OperationItem) : Managed :=
  { m with operation :=
      { m.operation with items := m.operation.items.set index item, updatedAt := now } }

def answered (m : Managed) (a : Answer) : Managed := { m with answers := a :: m.answers }

/-- The item is marked as running and handed to `perform`. -/
def perform (m : Managed) (index : Nat) (item : OperationItem) : Managed :=
  let m := m.setItem now index { item with status := .running }
  { m with performed := (index, item) :: m.performed }

/-- The loop of a worker, up to its next await. -/
def workerLoop (stopped : Bool) : Nat → Managed → Nat → Managed × Nat × Worker
  | 0, m, nextIndex => (m, nextIndex, .done)
  | fuel + 1, m, nextIndex =>
      if stopped then (m, nextIndex, .done)
      else
        match m.operation.items[nextIndex]? with
        | none => (m, nextIndex, .done)
        | some item =>
            if item.status = .pending then
              (m.perform now nextIndex item, nextIndex + 1, .performing nextIndex item)
            else workerLoop stopped fuel m (nextIndex + 1)

def work (stopped : Bool) (m : Managed) (nextIndex : Nat) : Managed × Nat × Worker :=
  workerLoop now stopped (m.operation.items.length - nextIndex) m nextIndex

/-- The workers start one after the other, each up to its first await. -/
def startWorkers : Nat → Managed → Nat → List Worker → Managed × Nat × List Worker
  | 0, m, nextIndex, workers => (m, nextIndex, workers)
  | n + 1, m, nextIndex, workers =>
      let (m, nextIndex, worker) := m.work now false nextIndex
      startWorkers n m nextIndex (workers ++ [worker])

/-- `Math.min(items.length, Math.max(1, Math.min(20, concurrency)))`, rounded down; none is NaN. -/
def workerCount (items : List OperationItem) : Option Int → Nat
  | none => 0
  | some concurrency => min items.length (max 1 (min 20 concurrency)).toNat

/-- The part of `execute` behind its guards, and `run` up to its first await. -/
def start (m : Managed) (hasRefresh : Bool) (options : OperationOptions)
    (concurrency : Option Int) : Managed :=
  let m := { m with
    hasRefresh
    operation := { m.operation with
      status := .running
      options :=
        { assignCopilotSeat := options.assignCopilotSeat.or m.operation.options.assignCopilotSeat
          ssoType := options.ssoType.or m.operation.options.ssoType }
      updatedAt := now } }
  let (m, nextIndex, workers) :=
    startWorkers now (workerCount m.operation.items concurrency) m 0 []
  { m with phase := .working { workers, nextIndex, stopped := false } }

def conflictCodes : List String :=
  ["task_already_active", "task_changed", "account_mapping_changed", "authorization_conflict",
    "authorization_not_needed"]

def failureStatus : Thrown → OperationItemStatus
  | .http _ code _ =>
      if "_unconfirmed".toList.isSuffixOf code.toList then .interrupted
      else if conflictCodes.contains code then .skipped
      else .failed
  | _ => .failed

/-- What a worker stores for its item; nothing where the error has no text. -/
def performResult (item : OperationItem) : Outcome → Option OperationItem
  | .ok next => some next
  | .error e =>
      (errorMessage e).map fun text => { item with status := failureStatus e, detail := some text }

/-- `perform` settles for a worker. -/
def settle (m : Managed) (w : Working) (worker : Nat) (outcome : Outcome) : Option Managed :=
  match w.workers[worker]? with
  | some (.performing index item) =>
      let m := m.answered { call := .perform, index, item, outcome }
      match performResult item outcome with
      | some next =>
          let (m, nextIndex, next) := (m.setItem now index next).work now w.stopped w.nextIndex
          let w := { w with workers := w.workers.set worker next, nextIndex }
          some { m with phase := .working w }
      | none =>
          let w := { w with workers := w.workers.set worker .failed, stopped := true }
          some { m with phase := .working w }
  | _ => none

def interruptedDetail : String :=
  "The worker stopped before this item finished. Check the resource before retrying."

def interruptItem (item : OperationItem) : OperationItem :=
  if item.status = .pending ∨ item.status = .running then
    { item with status := .interrupted, detail := some interruptedDetail }
  else item

/-- The operation worker stopped. -/
def interrupt (m : Managed) : Managed :=
  { m with
    phase := .ended
    operation := { m.operation with
      status := .interrupted
      items := m.operation.items.map interruptItem
      updatedAt := now } }

def complete (m : Managed) : Managed :=
  { m with phase := .ended, operation := { m.operation with status := .completed, updatedAt := now } }

def someRunning (m : Managed) : Bool := m.operation.items.any (·.status = .running)

/-- The head of the loop over the rounds. -/
def nextRound (m : Managed) (round : Nat) (failures : Nat → Nat) : Managed :=
  if m.someRunning then { m with phase := .delayed round failures } else m.complete now

/-- The first item at an index that is still running. -/
def runningFrom (items : List OperationItem) (index : Nat) : Option Nat :=
  (List.range items.length).find? fun i => index ≤ i && (items[i]?).any (·.status = .running)

/-- The loop over the items of a round, up to the next call of `refresh`. -/
def scan (m : Managed) (round : Nat) (failures : Nat → Nat) (index : Nat) : Managed :=
  match runningFrom m.operation.items index with
  | none => m.nextRound now (round + 1) failures
  | some i =>
      match m.operation.items[i]? with
      | none => m.nextRound now (round + 1) failures
      | some current => { m with phase := .refreshing round i current failures }

def awaitCompletion (m : Managed) : Managed :=
  if m.hasRefresh then m.nextRound now 0 fun _ => 0 else m.complete now

/-- `Promise.allSettled` has settled. -/
def conclude (m : Managed) (w : Working) : Option Managed :=
  if w.workers.all fun worker => worker = .done ∨ worker = .failed then
    if w.workers.any (· = .failed) then some (m.interrupt now) else some (m.awaitCompletion now)
  else none

/-- `err instanceof HttpApiError && err.status === 404`. -/
def isMissing : Thrown → Bool
  | .http status _ _ => status = 404
  | _ => false

def unconfirmedDetail (attempts : Nat) (text : String) : String :=
  s!"Progress could not be confirmed after {attempts} attempt(s). "
    ++ s!"Check the resource before retrying: {text}"

/-- What the failure of a refresh makes of the item. -/
def unavailable (current : OperationItem) (e : Thrown) (attempts : Nat) (text : String) :
    OperationItem :=
  if isMissing e || maxRefreshFailures ≤ attempts then
    { current with status := .interrupted, detail := some (unconfirmedDetail attempts text) }
  else
    { current with
      status := .running
      detail := some s!"Progress is currently unavailable: {text}" }

/-- `refresh` settles for the item at the index. -/
def refreshed (m : Managed) (round index : Nat) (current : OperationItem) (failures : Nat → Nat)
    (outcome : Outcome) : Managed :=
  let m := m.answered { call := .refresh, index, item := current, outcome }
  match outcome with
  | .ok next =>
      let failures := Function.update failures index 0
      let m := if next.status ≠ current.status ∨ next.detail ≠ current.detail then
          m.setItem now index next
        else m
      m.scan now round failures (index + 1)
  | .error e =>
      let attempts := failures index + 1
      let failures := Function.update failures index attempts
      match errorMessage e with
      | none => m.interrupt now
      | some text =>
          (m.setItem now index (unavailable current e attempts text)).scan now round failures
            (index + 1)

/-- `sweep`: an expired preview or a stale result. -/
def expired (m : Managed) : Bool :=
  match m.operation.status with
  | .preview => m.operation.expiresAt ≤ now
  | .running => false
  | .completed | .interrupted => m.operation.updatedAt + resultTtlMs ≤ now

end Managed

/-! ## The manager -/

/-- The operations by their ids. -/
abbrev Manager : Type := String → Option Managed

def Manager.initial : Manager := fun _ => none

/-- What a preview asks for one id: why it is not eligible, and its snapshot. -/
structure Target where
  id : String
  reason : Option String
  revision : Option String := none
  label : Option String := none
  requiresPasswordOverride : Option Bool := none
deriving DecidableEq, Repr

def Target.item (t : Target) : OperationItem where
  id := t.id
  status := if t.reason.any (· ≠ "") then .skipped else .pending
  detail := t.reason
  revision := t.revision
  label := t.label
  requiresPasswordOverride := t.requiresPasswordOverride

inductive Event
  /-- The end of `preview`; the id is a new UUID. -/
  | preview (id action : String) (targets : List Target) (options : OperationOptions)
  | get (id : String)
  | execute (id : String) (hasRefresh : Bool) (options : OperationOptions)
      (concurrency : Option Int)
  | settle (id : String) (worker : Nat) (outcome : Outcome)
  | conclude (id : String)
  | wake (id : String)
  | refreshed (id : String) (outcome : Outcome)

namespace Manager

def sweep (now : Nat) (ms : Manager) : Manager := fun id =>
  (ms id).map fun m => { m with stored := m.stored && !m.expired now }

def set (ms : Manager) (id : String) (m : Managed) : Manager := Function.update ms id (some m)

def newPreview (now : Nat) (id action : String) (targets : List Target) (options : OperationOptions) :
    Managed where
  operation :=
    { id, action, status := .preview, items := targets.map Target.item, createdAt := now
      updatedAt := now, expiresAt := now + previewTtlMs, options }
  stored := true
  hasRefresh := false
  phase := .ended
  previewed := targets.map Target.item
  performed := []
  answers := []

/-- An event of an operation that runs. -/
def change (ms : Manager) (id : String) (f : Managed → Option Managed) : Option Manager :=
  ((ms id).bind f).map (ms.set id)

def step (ms : Manager) (e : Nat × Event) : Option Manager :=
  let (now, e) := e
  match e with
  | .preview id action targets options =>
      if (ms id).isSome then none
      else if targets = [] ∨ managementBatchLimit < targets.length then some ms
      else some ((ms.sweep now).set id (newPreview now id action targets options))
  | .get _ => some (ms.sweep now)
  | .execute id hasRefresh options concurrency =>
      let ms := ms.sweep now
      match ms id with
      | none => some ms
      | some m =>
          if m.stored = true ∧ m.operation.status = .preview then
            some (ms.set id (m.start now hasRefresh options concurrency))
          else some ms
  | .settle id worker outcome => ms.change id fun m =>
      match m.phase with
      | .working w => m.settle now w worker outcome
      | _ => none
  | .conclude id => ms.change id fun m =>
      match m.phase with
      | .working w => m.conclude now w
      | _ => none
  | .wake id => ms.change id fun m =>
      match m.phase with
      | .delayed round failures => some (m.scan now round failures 0)
      | _ => none
  | .refreshed id outcome => ms.change id fun m =>
      match m.phase with
      | .refreshing round index current failures =>
          some (m.refreshed now round index current failures outcome)
      | _ => none

end Manager

end GhcpConsole.Management
