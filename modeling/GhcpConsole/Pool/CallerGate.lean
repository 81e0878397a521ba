import Mathlib.Data.List.AList
import GhcpConsole.Lib.Machine
import GhcpConsole.Pool.Schema

/-!
# The caller gate

`mysqlCallerGate.ts`: one admission per caller and MySQL pool. Objects that closures hold on to, the
scopes and the maps of callers, are entries of a heap and are named by their place in it; a ticket
keeps the names its closures captured. Tickets are numbered in the order of the requests, and each
also has the state of the `MysqlDeadline.run` its request was made in.
-/

namespace GhcpConsole.Pool.CallerGate

def queueLimit : Nat := 32

def ticketLimit : Nat := 1024

structure Scope where
  active : Option Nat
  waiters : List Nat
deriving DecidableEq, Repr

structure Ticket (π : Type) where
  key : π
  caller : String
  /-- The map of callers the request found or made. -/
  scopes : Nat
  /-- The scope it found or made there. -/
  current : Nat
  references : Int
  released : Bool
  /-- The `done` flag of every `retain`. -/
  retains : List Bool
  /-- `resolve(permit)` was called. -/
  granted : Bool
  /-- `settled` of `deadline.run`. -/
  settled : Bool
  /-- It was settled by `stop`. -/
  cancelled : Bool
  /-- It was settled by the permit, which the caller has. -/
  delivered : Bool
  /-- The continuation of the permit has run. -/
  observed : Bool
deriving DecidableEq, Repr

structure Gate (π : Type) where
  pools : AList fun _ : π => Nat
  callers : List (AList fun _ : String => Nat)
  scopes : List Scope
  tickets : List (Ticket π)
  retainedTickets : Int
  /-- The tickets in the order of their grants. -/
  grants : List Nat

def Gate.initial {π : Type} : Gate π where
  pools := ∅
  callers := []
  scopes := []
  tickets := []
  retainedTickets := 0
  grants := []

/-- How a request that made no ticket was rejected. -/
inductive Refusal
  /-- `signal.reason`. -/
  | aborted
  /-- `MysqlDeadlineError`. -/
  | deadline
  | error (e : StoreError)
deriving DecidableEq, Repr

namespace Gate

variable {π : Type} [DecidableEq π]

/-! ## Tickets and scopes -/

def put (s : Gate π) (t : Nat) (k : Ticket π) : Gate π := { s with tickets := s.tickets.set t k }

def setScope (s : Gate π) (c : Nat) (scope : Scope) : Gate π :=
  { s with scopes := s.scopes.set c scope }

/-- `ticket.grant()`: a promise is resolved once. -/
def grant (s : Gate π) (t : Nat) : Gate π :=
  match s.tickets[t]? with
  | none => s
  | some k =>
      if k.granted then s
      else { s.put t { k with granted := true } with grants := s.grants ++ [t] }

/-- The ticket leaves its scope; an active one hands over to the next waiter. -/
def leave (s : Gate π) (t current : Nat) : Gate π :=
  match s.scopes[current]? with
  | none => s
  | some scope =>
      if scope.active = some t then
        match scope.waiters with
        | [] => s.setScope current { active := none, waiters := [] }
        | next :: rest => (s.setScope current { active := some next, waiters := rest }).grant next
      else s.setScope current { scope with waiters := scope.waiters.erase t }

/-- An empty scope is deleted, and a pool with its last one. -/
def sweep (s : Gate π) (k : Ticket π) : Gate π :=
  match s.scopes[k.current]?, s.callers[k.scopes]? with
  | some scope, some scopes =>
      if scope.active = none ∧ scope.waiters = [] then
        let scopes := scopes.erase k.caller
        let s := { s with callers := s.callers.set k.scopes scopes }
        if scopes.keys = [] then { s with pools := s.pools.erase k.key } else s
      else s
  | _, _ => s

def drop (s : Gate π) (t : Nat) : Gate π :=
  match s.tickets[t]? with
  | none => s
  | some k =>
      let k := { k with references := k.references - 1 }
      let s := s.put t k
      if k.references ≠ 0 then s
      else (({ s with retainedTickets := s.retainedTickets - 1 }).leave t k.current).sweep k

/-! ## The permit -/

def release (s : Gate π) (t : Nat) : Gate π :=
  match s.tickets[t]? with
  | none => s
  | some k => if k.released then s else (s.put t { k with released := true }).drop t

/-- The state after a `retain` and the number of its reference; none when it throws. -/
def retain (s : Gate π) (t : Nat) : Option (Gate π × Nat) :=
  match s.tickets[t]? with
  | none => none
  | some k =>
      if k.released then none
      else some (s.put t { k with references := k.references + 1, retains := k.retains ++ [false] },
        k.retains.length)

/-- The function `retain` returned. -/
def unretain (s : Gate π) (t i : Nat) : Gate π :=
  match s.tickets[t]? with
  | none => s
  | some k =>
      if k.retains[i]? = some false then (s.put t { k with retains := k.retains.set i true }).drop t
      else s

/-! ## Requests -/

/-- The scope of a request and the map it is in, made where there is none. -/
def enter (s : Gate π) (key : π) (caller : String) : Gate π × Nat × Nat :=
  let (s, scopes) := match s.pools.lookup key with
    | some scopes => (s, scopes)
    | none =>
        ({ s with pools := s.pools.insert key s.callers.length, callers := s.callers ++ [∅] },
          s.callers.length)
  match s.callers[scopes]?.bind (·.lookup caller) with
  | some current => (s, scopes, current)
  | none =>
      ({ s with
          callers := s.callers.modify scopes (·.insert caller s.scopes.length)
          scopes := s.scopes ++ [{ active := none, waiters := [] }] }, scopes, s.scopes.length)

/-- The new ticket becomes active or waits. -/
def join (s : Gate π) (key : π) (caller : String) (scopes current : Nat) : Gate π :=
  let t := s.tickets.length
  let s := { s with
    retainedTickets := s.retainedTickets + 1
    tickets := s.tickets ++ [{
      key, caller, scopes, current, references := 1, released := false, retains := []
      granted := false, settled := false, cancelled := false, delivered := false
      observed := false }] }
  match s.scopes[current]? with
  | none => s
  | some scope =>
      if scope.active.isSome then
        s.setScope current { scope with waiters := scope.waiters ++ [t] }
      else (s.setScope current { scope with active := some t }).grant t

/-- The scope of a caller, where it has one. -/
def scope? (s : Gate π) (key : π) (caller : String) : Option Scope := do
  let scopes ← s.pools.lookup key
  let callers ← s.callers[scopes]?
  let current ← callers.lookup caller
  s.scopes[current]?

/-- `acquireMysqlCaller` up to its promise: the number of the ticket that has to be waited for. -/
def acquireMysqlCaller (s : Gate π) (key : π) (caller : String) (aborted expired : Bool) :
    Except Refusal (Gate π × Nat) :=
  if aborted then .error .aborted
  else if expired then .error .deadline
  else if s.retainedTickets ≥ ticketLimit
      ∨ ((s.scope? key caller).elim 0 (·.waiters.length)) ≥ queueLimit then
    .error (.error (.pool 503 "pool_storage_unavailable" 1))
  else
    let (s, scopes, current) := s.enter key caller
    .ok (s.join key caller scopes current, s.tickets.length)

/-- `stop` of `deadline.run`, by its timer or by the signal. -/
def stop (s : Gate π) (t : Nat) : Gate π :=
  match s.tickets[t]? with
  | none => s
  | some k =>
      if k.settled then s
      else ((s.put t { k with settled := true, cancelled := true }).release t).grant t

/-- The continuation of the permit in `deadline.run`. -/
def observe (s : Gate π) (t : Nat) (expired : Bool) : Gate π :=
  match s.tickets[t]? with
  | none => s
  | some k =>
      let s := s.put t { k with observed := true }
      let s := if !k.settled && expired then s.stop t else s
      match s.tickets[t]? with
      | none => s
      | some k =>
          if k.settled then s.release t
          else s.put t { k with settled := true, delivered := true }

end Gate

/-! ## Runs -/

inductive Event (π : Type)
  | acquire (key : π) (caller : String) (aborted expired : Bool)
  /-- The timer or the abort listener, until the run is settled. -/
  | stop (t : Nat)
  /-- The continuation, once, after the grant. -/
  | observe (t : Nat) (expired : Bool)
  /-- What a caller that has the permit does with it. -/
  | release (t : Nat)
  | retain (t : Nat)
  | unretain (t i : Nat)
deriving Repr

variable {π : Type} [DecidableEq π]

def step (s : Gate π) : Event π → Option (Gate π)
  | .acquire key caller aborted expired =>
      match s.acquireMysqlCaller key caller aborted expired with
      | .error _ => some s
      | .ok (s, _) => some s
  | .stop t => if s.tickets[t]?.any (!·.settled) then some (s.stop t) else none
  | .observe t expired =>
      if s.tickets[t]?.any fun k => k.granted && !k.observed then some (s.observe t expired) else none
  | .release t => if s.tickets[t]?.any (·.delivered) then some (s.release t) else none
  | .retain t =>
      if s.tickets[t]?.any (·.delivered) then some ((s.retain t).elim s (·.1)) else none
  | .unretain t i => if s.tickets[t]?.any (·.delivered) then some (s.unretain t i) else none

end GhcpConsole.Pool.CallerGate
