import Mathlib.Logic.Function.Basic
import GhcpConsole.Copilot.ModelIds

/-!
# The models cache

`copilotClient.ts`: the catalogs of models, one entry for each credential, each filled by a refresh that
all lookups of the credential share. Entries, refreshes and lookups are objects that closures hold on to
after the cache has dropped them, so they are kept under their numbers, in the order in which they
came to be; the cache itself has numbers of entries only. What has no number yet is blank.

An event is what happens between two turns of the event loop. `time`, `startedAt`, `clears` and `origin`
are not in the source: they say which refresh a snapshot comes from, and what happened before what.
-/

namespace GhcpConsole.Copilot

/-! ## Keys -/

structure CopilotAuthContext where
  identity : String := ""
  accessToken : String := ""
  api : String := ""
  enterpriseId : Option String := none
deriving DecidableEq

def withoutTrailingSlashes (url : String) : String :=
  String.ofList (url.toList.reverse.dropWhile (· = '/')).reverse

/-- What tells credentials apart. -/
def CopilotAuthContext.parts (copilot : CopilotAuthContext) : List String :=
  [copilot.enterpriseId.getD "", copilot.identity, withoutTrailingSlashes copilot.api,
    copilot.accessToken]

/-- `digest` is the SHA-256 of the JSON of the parts, in hexadecimal. -/
def modelsCacheKey (digest : List String → String) (copilot : CopilotAuthContext) : String :=
  digest copilot.parts

/-! ## Objects -/

def modelsCacheTtlMs : Nat := 60 * 60 * 1000
def modelsCacheStaleMaxAgeMs : Nat := 6 * 60 * 60 * 1000
def modelsRefreshTimeoutMs : Nat := 30000

inductive ModelsError
  /-- The reason of the signal of a caller. -/
  | aborted
  | collision (error : ModelIdCollisionError)
  | api (message : String) (status : Nat)
  | other (message : String)
deriving DecidableEq

def refreshTimedOut : ModelsError := .api "List models refresh timed out." 504

structure ModelsSnapshot (T : Type) where
  models : List T
  modelIndex : ModelIdIndex T
  fetchedAt : Nat
  expiresAt : Nat
  /-- The refresh it comes from. -/
  origin : Nat

structure ModelsCacheEntry (T : Type) where
  identity : String := ""
  retired : Bool := false
  snapshot : Option (ModelsSnapshot T) := none
  refresh : Option Nat := none

/-- Where the promise of `fetchModels` is: its rejection reaches `catch` a turn after `then`. -/
inductive Fetch
  | running
  | failed (error : ModelsError)
  | ended
deriving DecidableEq

structure ModelsRefresh where
  cacheKey : String := ""
  copilot : CopilotAuthContext := {}
  entry : Nat := 0
  /-- The reason of the signal of its controller, once that is aborted. -/
  reason : Option ModelsError := none
  waiters : List Nat := []
  timer : Option Nat := none
  fetch : Fetch := .ended
  startedAt : Nat := 0

structure ModelsLookupOptions where
  forceRefresh : Bool := false
  allowStaleOnError : Bool := true
  /-- The signal of the caller, and whether it is aborted. -/
  signal : Option Bool := none

inductive CacheStatus
  | fresh
  | cached
  | stale
deriving DecidableEq

/-- A call of `lookupModelsSnapshot`, with its waiter. -/
structure ModelsLookup (T : Type) where
  copilot : CopilotAuthContext := {}
  options : ModelsLookupOptions := {}
  now : Nat := 0
  cacheKey : String := ""
  entry : Nat := 0
  snapshot : Option (ModelsSnapshot T) := none
  refresh : Option Nat := none
  /-- The waiter listens to the signal. -/
  listening : Bool := false
  /-- The calls of `resolve` and `reject`. -/
  settled : List (Except ModelsError (ModelsSnapshot T)) := []
  result : Option (Except ModelsError (ModelsSnapshot T × CacheStatus)) := none
  startedAt : Nat := 0

structure ModelsState (T : Type) where
  modelsCache : OrderedMap String Nat := []
  entry : Nat → ModelsCacheEntry T := fun _ => {}
  entries : Nat := 0
  refresh : Nat → ModelsRefresh := fun _ => {}
  refreshes : Nat := 0
  lookup : Nat → ModelsLookup T := fun _ => {}
  lookups : Nat := 0
  time : Nat := 0
  /-- When `clearModelsCache` was called, and for which identity. -/
  clears : List (Nat × String) := []

namespace ModelsState

variable {T : Type} (s : ModelsState T)

def setEntry (e : Nat) (entry : ModelsCacheEntry T) : ModelsState T :=
  { s with entry := Function.update s.entry e entry }

def setRefresh (r : Nat) (refresh : ModelsRefresh) : ModelsState T :=
  { s with refresh := Function.update s.refresh r refresh }

def setLookup (l : Nat) (lookup : ModelsLookup T) : ModelsState T :=
  { s with lookup := Function.update s.lookup l lookup }

def deleteKey (cacheKey : String) : ModelsState T :=
  { s with modelsCache := s.modelsCache.erase cacheKey }

/-! ## Entries -/

def clearModelsCache (identity : String) : ModelsState T :=
  { s with
    modelsCache := s.modelsCache.filter fun p => (s.entry p.2).identity ≠ identity
    clears := (s.time, identity) :: s.clears }

/-- The body of the loop of `modelsCacheEntry`. -/
def retire (cacheKey identity : String) (p : String × Nat) : ModelsState T :=
  if (s.entry p.2).identity ≠ identity ∨ p.1 = cacheKey then s
  else
    let retired := s.setEntry p.2 { s.entry p.2 with retired := true, snapshot := none }
    if (s.entry p.2).refresh = none then retired.deleteKey p.1 else retired

def retireOthers (cacheKey identity : String) : ModelsState T :=
  s.modelsCache.foldl (fun s p => s.retire cacheKey identity p) s

def create (cacheKey identity : String) : ModelsState T :=
  { s.setEntry s.entries { identity } with
    modelsCache := s.modelsCache.set cacheKey s.entries
    entries := s.entries + 1 }

/-- The entry to use, and what becomes of the others of the identity. -/
def modelsCacheEntry (cacheKey identity : String) : ModelsState T × Nat :=
  match s.modelsCache.get cacheKey with
  | some e =>
      if (s.entry e).retired then
        let others := s.retireOthers cacheKey identity
        (others.setEntry e { others.entry e with retired := false }, e)
      else (s, e)
  | none => ((s.retireOthers cacheKey identity).create cacheKey identity,
      (s.retireOthers cacheKey identity).entries)

/-! ## Refreshes -/

/-- `if (entry.refresh === refresh) entry.refresh = undefined`. -/
def detach (e r : Nat) : ModelsState T :=
  if (s.entry e).refresh = some r then s.setEntry e { s.entry e with refresh := none } else s

def deleteEntry (cacheKey : String) (e : Nat) : ModelsState T :=
  if s.modelsCache.get cacheKey = some e then s.deleteKey cacheKey else s

end ModelsState

/-- The promise of a waiter is resolved or rejected, and its listener removed. -/
def ModelsLookup.settle {T : Type} (lookup : ModelsLookup T)
    (result : Except ModelsError (ModelsSnapshot T)) : ModelsLookup T :=
  { lookup with listening := false, settled := lookup.settled ++ [result] }

/-- `controller.abort(reason)`: the first reason stays. -/
def ModelsRefresh.abort (refresh : ModelsRefresh) (reason : ModelsError) : ModelsRefresh :=
  { refresh with reason := refresh.reason.or (some reason) }

namespace ModelsState

variable {T : Type} (s : ModelsState T)

/-- A refresh that there is no other lookup for yet. -/
def startRefresh (lookup : ModelsLookup T) : ModelsState T :=
  let started : ModelsRefresh := {
    cacheKey := lookup.cacheKey
    copilot := lookup.copilot
    entry := lookup.entry
    timer := some modelsRefreshTimeoutMs
    fetch := .running
    startedAt := s.time }
  { (s.setRefresh s.refreshes started).setEntry lookup.entry
      { s.entry lookup.entry with refresh := some s.refreshes } with
    refreshes := s.refreshes + 1 }

/-- The waiter of lookup `l` is added to refresh `r`. -/
def join (l r : Nat) (lookup : ModelsLookup T) : ModelsState T :=
  (s.setRefresh r { s.refresh r with waiters := (s.refresh r).waiters ++ [l] }).setLookup l
    { lookup with refresh := some r, listening := lookup.options.signal.isSome }

def refreshModelsSnapshot (l : Nat) (lookup : ModelsLookup T) : ModelsState T :=
  match (s.entry lookup.entry).refresh with
  | some r => s.join l r lookup
  | none => (s.startRefresh lookup).join l s.refreshes lookup

def settleModelsRefresh (r : Nat) (result : Except ModelsError (ModelsSnapshot T)) :
    ModelsState T :=
  let refresh := s.refresh r
  let detached := s.detach refresh.entry r
  let entry := detached.entry refresh.entry
  let kept := if entry.retired = true ∧ entry.refresh = none
    then detached.deleteEntry refresh.cacheKey refresh.entry else detached
  { kept.setRefresh r { refresh with timer := none, waiters := [] } with
    lookup := fun l =>
      if l ∈ refresh.waiters then (kept.lookup l).settle result else kept.lookup l }

/-- The listener of the waiter of lookup `l`. -/
def leave (l r : Nat) : ModelsState T :=
  let lookup := s.lookup l
  let waiters := (s.refresh r).waiters.erase l
  let left := (s.setRefresh r { s.refresh r with waiters }).setLookup l
    (lookup.settle (.error .aborted))
  if waiters = [] then
    let detached := left.detach lookup.entry r
    let kept := if (detached.entry lookup.entry).retired
      then detached.deleteEntry lookup.cacheKey lookup.entry else detached
    kept.setRefresh r ({ kept.refresh r with timer := none }.abort .aborted)
  else left

/-! ## Events -/

/-- The two turns of a fetch: a catalog that came is stored and given to the waiters at once, an error
waits for `catch`. -/
def fetched [Identified T] (r now : Nat) (outcome : Except ModelsError (List T)) : ModelsState T :=
  let refresh := s.refresh r
  let failed (error : ModelsError) := s.setRefresh r { refresh with fetch := .failed error }
  match outcome, refresh.reason with
  | .error error, _ => failed error
  | .ok _, some reason => failed reason
  | .ok models, none =>
      match buildModelIdIndex models with
      | .error error => failed (.collision error)
      | .ok modelIndex =>
          let snapshot : ModelsSnapshot T := {
            models
            modelIndex
            fetchedAt := now
            expiresAt := now + modelsCacheTtlMs
            origin := r }
          let ended := s.setRefresh r { refresh with fetch := .ended }
          let entry := ended.entry refresh.entry
          let stored := if entry.retired then ended
            else ended.setEntry refresh.entry { entry with snapshot := some snapshot }
          stored.settleModelsRefresh r (.ok snapshot)

def timedOut (r : Nat) : ModelsState T :=
  let settled := s.settleModelsRefresh r (.error refreshTimedOut)
  settled.setRefresh r ((settled.refresh r).abort refreshTimedOut)

end ModelsState

/-- These errors are the answer, whatever the cache has. -/
def rethrown : ModelsError → Bool
  | .collision _ => true
  | .api _ status => status = 401 || status = 403 || status = 429
  | _ => false

/-- What follows the `await` of `lookupModelsSnapshot`. -/
def ModelsLookup.finish {T : Type} (lookup : ModelsLookup T) :
    Except ModelsError (ModelsSnapshot T) → Except ModelsError (ModelsSnapshot T × CacheStatus)
  | .ok snapshot => .ok (snapshot, .fresh)
  | .error error =>
      if lookup.options.signal = some true then .error .aborted
      else if rethrown error then .error error
      else
        match lookup.snapshot with
        | some snapshot =>
            if lookup.options.allowStaleOnError
                && decide (lookup.now - snapshot.fetchedAt ≤ modelsCacheStaleMaxAgeMs) then
              .ok (snapshot, .stale)
            else .error error
        | none => .error error

namespace ModelsState

variable {T : Type} (s : ModelsState T)

def lookupModelsSnapshot (digest : List String → String) (copilot : CopilotAuthContext)
    (options : ModelsLookupOptions) (now : Nat) : ModelsState T :=
  let l := s.lookups
  let s := { s with lookups := l + 1 }
  if options.signal = some true then
    s.setLookup l { copilot, options, now, result := some (.error .aborted), startedAt := s.time }
  else
    let cacheKey := modelsCacheKey digest copilot
    let found := s.modelsCacheEntry cacheKey copilot.identity
    let snapshot := (found.1.entry found.2).snapshot
    let lookup : ModelsLookup T :=
      { copilot, options, now, cacheKey, entry := found.2, snapshot, startedAt := s.time }
    match if options.forceRefresh then none else snapshot.filter (·.expiresAt > now) with
    | some snapshot =>
        found.1.setLookup l { lookup with result := some (.ok (snapshot, .cached)) }
    | none => found.1.refreshModelsSnapshot l lookup

end ModelsState

inductive ModelsEvent (T : Type)
  | lookup (copilot : CopilotAuthContext) (options : ModelsLookupOptions) (now : Nat)
  /-- The signal of lookup `l` is aborted. -/
  | abort (l : Nat)
  | fetched (r now : Nat) (outcome : Except ModelsError (List T))
  /-- `catch` of the fetch of refresh `r`. -/
  | failed (r : Nat)
  | timeout (r : Nat)
  /-- Lookup `l` goes on after its `await`. -/
  | resume (l : Nat)
  /-- `listModelsWithMetadata` of a rejected credential. -/
  | rejected (l : Nat)
  | clear (identity : String)

def ModelsEvent.copilot {T : Type} : ModelsEvent T → Option CopilotAuthContext
  | .lookup copilot _ _ => some copilot
  | _ => none

/-- The credential is no longer good. -/
def isRejection : ModelsError → Bool
  | .api _ status => status = 401 || status = 403
  | _ => false

namespace ModelsState

variable {T : Type} [Identified T] (digest : List String → String) (s : ModelsState T)

def event : ModelsEvent T → Option (ModelsState T)
  | .lookup copilot options now => some (s.lookupModelsSnapshot digest copilot options now)
  | .abort l =>
      let lookup := s.lookup l
      if lookup.options.signal = some false then
        let aborted := s.setLookup l
          { lookup with options := { lookup.options with signal := some true } }
        match lookup.refresh with
        | some r => some (if lookup.listening then aborted.leave l r else aborted)
        | none => some aborted
      else none
  | .fetched r now outcome =>
      if (s.refresh r).fetch = .running then some (s.fetched r now outcome) else none
  | .failed r =>
      match (s.refresh r).fetch with
      | .failed error =>
          some ((s.setRefresh r { s.refresh r with fetch := .ended }).settleModelsRefresh r
            (.error error))
      | _ => none
  | .timeout r => if (s.refresh r).timer.isSome then some (s.timedOut r) else none
  | .resume l =>
      let lookup := s.lookup l
      match lookup.result, lookup.settled.head? with
      | none, some settled =>
          some (s.setLookup l { lookup with result := some (lookup.finish settled) })
      | _, _ => none
  | .rejected l =>
      let lookup := s.lookup l
      match lookup.result with
      | some (.error error) =>
          if isRejection error then some (s.deleteKey (modelsCacheKey digest lookup.copilot))
          else none
      | _ => none
  | .clear identity => some (s.clearModelsCache identity)

def step (e : ModelsEvent T) : Option (ModelsState T) :=
  (s.event digest e).map fun s => { s with time := s.time + 1 }

end ModelsState

end GhcpConsole.Copilot
