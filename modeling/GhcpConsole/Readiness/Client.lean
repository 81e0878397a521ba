import Mathlib.Logic.Function.Basic
import GhcpConsole.Readiness.Listing

/-!
# The readiness client

`EnterpriseReadinessClient`: one refresh at a time reads both peers, and every call that does not find its
answer in the cache waits for it. Refreshes and calls are kept under their numbers, in the order in which
they came to be. What has no number yet is blank.

An event is what happens between two turns of the event loop. `time`, `startedAt`, `settledAt`, `inFlight`,
`clock` and `origin` are not in the source: they say what happened before what, and where a snapshot is from.
-/

namespace GhcpConsole.Readiness

structure EnterpriseReadinessOptions where
  enterprises : List ProxyEnterprise
  readyTtlMs : Nat := 60000
  notReadyTtlMs : Nat := 10000

structure ReadinessSnapshot where
  checkedAt : Nat
  results : OrderedMap String EnterpriseReadinessDto
  /-- The refresh it comes from. -/
  origin : Nat

/-- How the request to a peer ends: with a body, a `ReadinessFetchError`, or an error of another kind, which
the deadline is too. -/
inductive PeerAnswer (ν : Type) where
  | body (body : Json ν)
  | failed (failure : ReadinessFetchFailure)
  | threw

/-- What `readPeer` makes of it. -/
def PeerAnswer.listing {ν : Type} : PeerAnswer ν → PeerListing
  | .body json => parseListing json
  | .failed failure => .error failure
  | .threw => .error .unavailable

/-- A refresh, which requests both listings as it starts. -/
structure Refresh (ν : Type) where
  sso : Option (PeerAnswer ν) := none
  login : Option (PeerAnswer ν) := none
  snapshot : Option ReadinessSnapshot := none
  startedAt : Nat := 0
  /-- When `finally` has been through, and the callers have their answer. -/
  settledAt : Option Nat := none

def Refresh.answer {ν : Type} (refresh : Refresh ν) : ReadinessPeer → PeerAnswer ν → Refresh ν
  | .sso, answer => { refresh with sso := refresh.sso.or (some answer) }
  | .login, answer => { refresh with login := refresh.login.or (some answer) }

inductive CallResult where
  | answered (result : EnterpriseReadinessDto)
  | aborted

/-- A call of `readiness`. -/
structure Call where
  enterpriseId : String := ""
  fresh : Bool := false
  /-- What it waits for. -/
  refresh : Option Nat := none
  result : Option CallResult := none
  startedAt : Nat := 0
  clock : Nat := 0
  /-- `this.refreshing` at the call. -/
  inFlight : Option Nat := none

/-- The signal of the caller is aborted while it waits. -/
def Call.abort (call : Call) : Call :=
  match call.result, call.refresh with
  | none, some _ => { call with result := some .aborted }
  | _, _ => call

structure ReadinessState (ν : Type) where
  snapshot : Option ReadinessSnapshot := none
  refreshing : Option Nat := none
  refresh : Nat → Refresh ν := fun _ => {}
  refreshes : Nat := 0
  call : Nat → Call := fun _ => {}
  calls : Nat := 0
  now : Nat := 0
  time : Nat := 0

section Client

variable {ν : Type} (letters : LowerCase) (options : EnterpriseReadinessOptions)

/-- Ready results live longer than those that are not. -/
def ttlMs (result : EnterpriseReadinessDto) : Nat :=
  if result.ready then options.readyTtlMs else options.notReadyTtlMs

def resultsOf (sso login : PeerListing) (checkedAt : Nat) : OrderedMap String EnterpriseReadinessDto :=
  options.enterprises.foldl
    (fun results enterprise => results.set enterprise.id (compareEnterprise letters enterprise sso login checkedAt))
    []

/-- `snapshot.results.get(enterpriseId) ?? unknownEnterprise(enterpriseId, snapshot.at)` -/
def ReadinessSnapshot.result (snapshot : ReadinessSnapshot) (enterpriseId : String) : EnterpriseReadinessDto :=
  (snapshot.results.get enterpriseId).getD (unknownEnterprise enterpriseId snapshot.checkedAt)

namespace ReadinessState

variable (s : ReadinessState ν)

def isStale (checkedAt : Nat) (result : EnterpriseReadinessDto) : Bool :=
  checkedAt + ttlMs options result ≤ s.now

def cached (enterpriseId : String) : Option EnterpriseReadinessDto :=
  s.snapshot.bind fun snapshot =>
    (snapshot.results.get enterpriseId).filter fun result => !s.isStale options snapshot.checkedAt result

def setRefresh (r : Nat) (refresh : Refresh ν) : ReadinessState ν :=
  { s with refresh := Function.update s.refresh r refresh }

def setCall (c : Nat) (call : Call) : ReadinessState ν :=
  { s with call := Function.update s.call c call }

def startRefresh : ReadinessState ν :=
  { s.setRefresh s.refreshes { startedAt := s.time } with
    refreshing := some s.refreshes
    refreshes := s.refreshes + 1 }

def newCall (call : Call) : ReadinessState ν :=
  { s.setCall s.calls call with calls := s.calls + 1, time := s.time + 1 }

def readiness (enterpriseId : String) (fresh : Bool) : ReadinessState ν :=
  let call : Call :=
    { enterpriseId, fresh, startedAt := s.time, clock := s.now, inFlight := s.refreshing }
  match if fresh then none else s.cached options enterpriseId with
  | some result => s.newCall { call with result := some (.answered result) }
  | none =>
      match s.refreshing with
      | some r => s.newCall { call with refresh := some r }
      | none => s.startRefresh.newCall { call with refresh := some s.refreshes }

def clear : ReadinessState ν := { s with snapshot := none }

/-- The rest of `refresh`, once both peers are read. -/
def compare (r : Nat) : ReadinessState ν :=
  match (s.refresh r).snapshot, (s.refresh r).sso, (s.refresh r).login with
  | none, some sso, some login =>
      let snapshot : ReadinessSnapshot :=
        { checkedAt := s.now, results := resultsOf letters options sso.listing login.listing s.now, origin := r }
      { s.setRefresh r { s.refresh r with snapshot := some snapshot } with snapshot := some snapshot }
  | _, _, _ => s

/-- The `finally` of `startRefresh`. -/
def settle (r : Nat) : ReadinessState ν :=
  if (s.refresh r).snapshot.isSome && (s.refresh r).settledAt.isNone then
    { s.setRefresh r { s.refresh r with settledAt := some s.time } with
      refreshing := if s.refreshing = some r then none else s.refreshing
      time := s.time + 1 }
  else s

/-- What follows the `await` of `readiness`. -/
def awaited (call : Call) : Call :=
  match call.result, call.refresh with
  | none, some r =>
      match (s.refresh r).settledAt, (s.refresh r).snapshot with
      | some _, some snapshot => { call with result := some (.answered (snapshot.result call.enterpriseId)) }
      | _, _ => call
  | _, _ => call

def deliver (c : Nat) : ReadinessState ν := s.setCall c (s.awaited (s.call c))

def abort (c : Nat) : ReadinessState ν := s.setCall c (s.call c).abort

end ReadinessState

inductive ReadinessEvent (ν : Type) where
  | readiness (enterpriseId : String) (fresh : Bool)
  | answer (r : Nat) (peer : ReadinessPeer) (answer : PeerAnswer ν)
  | compare (r : Nat)
  | settle (r : Nat)
  | deliver (c : Nat)
  | abort (c : Nat)
  | clear
  | clock (now : Nat)

def ReadinessEvent.isAbort (c : Nat) : ReadinessEvent ν → Bool
  | .abort c' => c' = c
  | _ => false

def step (s : ReadinessState ν) : ReadinessEvent ν → ReadinessState ν
  | .readiness enterpriseId fresh => s.readiness options enterpriseId fresh
  | .answer r peer answer =>
      if r < s.refreshes then s.setRefresh r ((s.refresh r).answer peer answer) else s
  | .compare r => s.compare letters options r
  | .settle r => s.settle r
  | .deliver c => s.deliver c
  | .abort c => s.abort c
  | .clear => s.clear
  | .clock now => { s with now }

/-- What has become of the client after the events. -/
def run (events : List (ReadinessEvent ν)) : ReadinessState ν :=
  events.foldl (step letters options) {}

end Client

end GhcpConsole.Readiness
