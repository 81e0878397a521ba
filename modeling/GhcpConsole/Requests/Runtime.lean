import GhcpConsole.Lib.Machine
import GhcpConsole.Pool.Schema

/-!
# The life of one pooled request

`boundedAdmission` and the request handler `routeUserPool` as an event machine. An event is one
piece of code that runs without an await, or one thing that happens to the request: the store
answers, a timer fires, the client goes away, the response is flushed, finished or closed, the
handler starts and ends its operation. A request keeps what its closures keep, and a log of the
`finish` calls it has made on the store.
-/

namespace GhcpConsole.Requests

open Pool (HeldLease StoreError)

/-! ## Bounded admission -/

/-- Where the promise chain of the operation stands. -/
inductive Chain (T : Type)
  /-- Behind `Promise.resolve()`. -/
  | deferred
  | running
  | returned (value : T)
  | threw (error : StoreError)
  | ended
deriving DecidableEq, Repr

/-- The closure of `boundedAdmission`, its signal and the promise its caller awaits. -/
structure BoundedAdmission (T : Type) where
  aborted : Bool
  ended : Bool
  operation : Chain T
  result : Option (Except StoreError T)

namespace BoundedAdmission

variable {T : Type}

def initial : BoundedAdmission T :=
  { aborted := false, ended := false, operation := .deferred, result := none }

/-- `controller.abort()` with the listener `aborted`. -/
def abort (a : BoundedAdmission T) : BoundedAdmission T :=
  let a := { a with aborted := true }
  if a.ended then a
  else { a with ended := true, result := some (.error (.pool 504 "pool_request_timeout" 0)) }

/-- The first callback: `signal.throwIfAborted()`, then the operation is called. -/
def start (a : BoundedAdmission T) : Option (BoundedAdmission T) :=
  match a.operation with
  | .deferred =>
      some { a with
        operation := if a.aborted then .threw (.other "This operation was aborted") else .running }
  | _ => none

/-- The operation settles. -/
def settle (a : BoundedAdmission T) (result : Except StoreError T) : Option (BoundedAdmission T) :=
  match a.operation with
  | .running =>
      some { a with operation := match result with
        | .ok value => .returned value
        | .error error => .threw error }
  | _ => none

/-- The last callbacks; answers the value to clean up, if the admission is late. -/
def complete (a : BoundedAdmission T) : Option (BoundedAdmission T × Option T) :=
  match a.operation with
  | .returned value =>
      let a := { a with operation := .ended }
      if a.ended || a.aborted then some (a, some value)
      else some ({ a with ended := true, result := some (.ok value) }, none)
  | .threw error =>
      let a := { a with operation := .ended }
      some (if a.ended then a else { a with ended := true, result := some (.error error) }, none)
  | _ => none

end BoundedAdmission

/-! ## A request -/

/-- `PoolRequest` and the variables of the closure `finish`. -/
structure PoolRequest where
  held : HeldLease
  completed : Bool
  operationActive : Bool
  upstreamComplete : Bool
  responseSucceeded : Bool
  /-- `timeout` and `heartbeat` are armed. -/
  armed : Bool
  /-- `finishing` is set. -/
  finishing : Bool
deriving DecidableEq, Repr

/-- Which code has called `store.finish`. -/
inductive FinishSite
  | late | disconnected | completion
deriving DecidableEq, Repr

structure FinishCall where
  held : HeldLease
  success : Bool
  site : FinishSite
deriving DecidableEq, Repr

structure Request where
  /-- `isInference`, which is also `canRenew`. -/
  inference : Bool
  admission : BoundedAdmission HeldLease
  /-- `admissionTimeout` is armed and `disconnect` listens to `close`. -/
  guarded : Bool
  /-- `routeUserPool` has gone on after its await. -/
  resumed : Bool
  context : Option PoolRequest
  statusCode : Nat
  /-- `res.locals.poolSuccess === true`. -/
  poolSuccess : Bool
  destroyed : Bool
  requestAborted : Bool
  writableFinished : Bool
  finishEmitted : Bool
  closeEmitted : Bool
  /-- Operations under `withPoolOperation` that have not settled. -/
  operations : Nat
  /-- The hold the store has returned. -/
  acquired : Option HeldLease
  /-- The hold the handler after `next()` serves. -/
  handled : Option HeldLease
  finishCalls : List FinishCall
  /-- The calls of the closure `finish`: what they report, and the status code by then. -/
  completions : List (Bool × Nat)

namespace Request

/-- A request whose admission has just begun; its response may be closed by then. -/
def initial (inference closed : Bool) (statusCode : Nat) : Request :=
  { inference := inference, admission := .initial, guarded := true, resumed := false
    context := none, statusCode := statusCode, poolSuccess := false, destroyed := closed
    requestAborted := false, writableFinished := false, finishEmitted := false
    closeEmitted := closed, operations := 0, acquired := none, handled := none
    finishCalls := [], completions := [] }

def storeFinish (r : Request) (held : HeldLease) (success : Bool) (site : FinishSite) : Request :=
  { r with finishCalls := r.finishCalls ++ [{ held := held, success := success, site := site }] }

/-- The closure `finish`. -/
def finish (r : Request) (success : Bool) : Request :=
  match r.context with
  | none => r
  | some context =>
      let renews := success && r.inference && 200 ≤ r.statusCode && r.statusCode < 300
      let context := { context with responseSucceeded := context.responseSucceeded || renews }
      let r := { r with completions := r.completions ++ [(success, r.statusCode)] }
      if context.finishing then { r with context := some context }
      else
        let context := { context with armed := false }
        -- a disconnected upstream may still be draining
        if context.operationActive && !context.upstreamComplete then { r with context := some context }
        else
          let context := { context with completed := true, finishing := true }
          { r with context := some context }.storeFinish context.held context.responseSucceeded
            .completion

/-- What `routeUserPool` does once its admission is settled. -/
def resume (r : Request) : Option Request :=
  match r.resumed, r.admission.result with
  | false, some result =>
      let r := { r with resumed := true, guarded := false }
      match result with
      | .error _ => some r
      | .ok held =>
          if r.destroyed || r.requestAborted then some (r.storeFinish held false .disconnected)
          else
            some { r with
              context := some
                { held := held, completed := false, operationActive := false
                  upstreamComplete := false, responseSucceeded := false, armed := true
                  finishing := false }
              handled := some held }
  | _, _ => none

def setContext (r : Request) (set : PoolRequest → PoolRequest) : Request :=
  { r with context := r.context.map set }

end Request

/-! ## Events -/

inductive Event
  | admissionStarts
  | admissionSettles (result : Except StoreError HeldLease)
  | admissionCompletes
  | admissionTimeout
  | resume
  | requestAborted
  | statusSet (statusCode : Nat)
  /-- `res.destroy()`. -/
  | destroyed
  | flushed
  | resFinish
  | resClose
  | operationStarts
  /-- The handler has the whole upstream response. -/
  | upstreamComplete (success : Bool)
  | operationEnds
  /-- `timeout` fires; what it does depends on how far the response is. -/
  | deadline (headersSent writableEnded : Bool)
  /-- The heartbeat finds the hold lost. -/
  | holdLost

/-- Nothing happens where the guard does not hold. -/
def when (guard : Bool) (r : Request) : Option Request := if guard then some r else none

def Request.step (r : Request) : Event → Option Request
  | .admissionStarts => r.admission.start.map fun a => { r with admission := a }
  | .admissionSettles result =>
      (r.admission.settle result).map fun a => { r with
        admission := a, acquired := result.toOption.or r.acquired }
  | .admissionCompletes =>
      r.admission.complete.map fun (a, late) =>
        let r := { r with admission := a }
        match late with
        | none => r
        | some held => r.storeFinish held false .late
  | .admissionTimeout => when r.guarded { r with admission := r.admission.abort }
  | .resume => r.resume
  | .requestAborted => some { r with requestAborted := true }
  | .statusSet statusCode => some { r with statusCode := statusCode }
  | .destroyed => some { r with destroyed := true }
  | .flushed => some { r with writableFinished := true }
  | .resFinish =>
      when (!r.finishEmitted)
        ({ r with finishEmitted := true, writableFinished := true }.finish r.poolSuccess)
  | .resClose =>
      let r' := { r with closeEmitted := true, destroyed := true }
      let r' := if r.guarded then { r' with admission := r'.admission.abort } else r'
      when (!r.closeEmitted) (r'.finish false)
  | .operationStarts =>
      when r.handled.isSome
        ({ r with operations := r.operations + 1 }.setContext ({ · with operationActive := true }))
  | .upstreamComplete success =>
      when r.handled.isSome
        ({ r with poolSuccess := success }.setContext ({ · with upstreamComplete := true }))
  | .operationEnds =>
      let r' := { r with operations := r.operations - 1 }.setContext ({ · with operationActive := false })
      when (r.operations ≠ 0)
        (if r.destroyed || r.writableFinished then r'.finish (r.poolSuccess && r.writableFinished)
        else r')
  | .deadline headersSent writableEnded =>
      when (r.context.any (·.armed))
        (if !headersSent then { r with statusCode := 504 }
        else if !writableEnded then { r with destroyed := true }
        else r)
  | .holdLost => when (r.context.any (!·.completed)) { r with destroyed := true }

end GhcpConsole.Requests
