import Mathlib.Data.Finset.Card
import Mathlib.Data.String.Basic
import GhcpConsole.Lib.Rotation
import GhcpConsole.Pool.Operations

/-!
# Reclamation in the MySQL store

`reclaimTx` of `mysqlStore.ts` takes at most 32 candidates at a time, in the order of their identities
from the cursor of the process on and around. The cursor goes to every candidate that is visited, whether
its row is locked, its member is held or its statements fail, so that no candidate waits behind others
that stay. Identities are compared by their characters (`utf8mb4_bin`).
-/

namespace GhcpConsole.Pool.Mysql

/-- The members that `reclaimTx` finds something to do for, each once (`UNION`). -/
def reclaimCandidates (db : Db) (now : Nat) : List String :=
  (((db.members.filter fun p => (p.state = .ready || p.state = .cooling) && p.verifiedAt.isNone).map
      (·.identity))
    ++ (db.members.filter fun p => p.state = .cooling && p.cooldownUntil ≤ now).map (·.identity)
    ++ (db.leases.filter (·.expiresAt ≤ now)).map (·.memberIdentity)
    ++ (db.holds.filter (·.expiresAt ≤ now)).flatMap (fun h =>
      (db.leases.filter (·.leaseId = h.leaseId)).map (·.memberIdentity))
    ++ (db.catalogHolds.filter (·.expiresAt ≤ now)).map (·.memberIdentity)
    ++ (db.catalogCooldowns.filter (·.expiresAt ≤ now)).map (·.memberIdentity)).dedup

/-- What a round of the loop meets: what other transactions have committed since the last one, whether
another transaction has the Proxy row, an error of a statement, and the milliseconds since the start. -/
structure Moment where
  others : Db → Db
  locked : Bool
  failure : Option StoreError
  elapsed : Nat

/-- The error of the first queries, and the rounds. -/
structure Attempt where
  failure : Option StoreError
  moments : Nat → Moment

/-- A process and the database it sees. -/
structure Process where
  world : World
  reclaimCursor : String

inductive Ending
  | wholeBatch
  | budgetSpent
  | thrown (error : StoreError)
deriving DecidableEq, Repr

/-- A round of the loop: what it met, and what it has done. -/
structure Round where
  identity : String
  moment : Moment
  before : World
  result : Except StoreError Unit × World

structure ReclaimCall where
  rounds : List Round
  ending : Ending
  process : Process

def ReclaimCall.visited (call : ReclaimCall) : List String := call.rounds.map (·.identity)

/-- A round before the rest of a call. -/
def ReclaimCall.after (round : Round) (call : ReclaimCall) : ReclaimCall :=
  { call with rounds := round :: call.rounds }

@[simp] theorem ReclaimCall.after_rounds (round : Round) (call : ReclaimCall) :
    (call.after round).rounds = round :: call.rounds := rfl

@[simp] theorem ReclaimCall.after_visited (round : Round) (call : ReclaimCall) :
    (call.after round).visited = round.identity :: call.visited := rfl

@[simp] theorem ReclaimCall.after_ending (round : Round) (call : ReclaimCall) :
    (call.after round).ending = call.ending := rfl

@[simp] theorem ReclaimCall.after_process (round : Round) (call : ReclaimCall) :
    (call.after round).process = call.process := rfl

section Member

variable (env : Env)

/-- `DELETE` of the expired holds, catalog holds and catalog cooldowns of a member. -/
def deleteExpiredOf (identity : String) (now : Nat) (db : Db) : Db :=
  { db with
    holds := db.holds.filter fun h => !(h.expiresAt ≤ now
      && db.leases.any fun l => l.leaseId = h.leaseId && l.memberIdentity = identity)
    catalogHolds := db.catalogHolds.filter fun h => !(h.memberIdentity = identity && h.expiresAt ≤ now)
    catalogCooldowns := db.catalogCooldowns.filter fun c =>
      !(c.memberIdentity = identity && c.expiresAt ≤ now) }

/-- `updateTx` without a fence, an owner or a hold. -/
def updateTx (identity : String) (patch : Patch) : StoreM Bool := do
  match ← select fun db => db.inventory identity with
  | none => pure false
  | some row =>
      if row.state = .disabled then pure false
      else if patch = {} then pure true
      else do
        let held ← if patch.state = some .provisioning then hasHolds env identity else pure false
        if held then pure false else do
        let t ← now env
        exec (.updateMember identity patch t (patch.invalidating row))
        if patch.invalidating row then exec (.clampLease identity t)
        pure true

/-- A member without a valid or verified credential fails. -/
def failUnusable (identity : String) (credential : Option ProxyAccount) (t : Nat) (member : Inventory) :
    StoreM Unit := do
  if (credential.all fun a => !a.credentials.usable) then
    let _ ← updateTx env identity
      { state := some .failed, lastError := some (some "credential_not_valid"), retryAt := some (t + 30000) }
  else if member.state = .ready ∧ member.verifiedAt = none then
    let _ ← updateTx env identity
      { state := some .failed, stage := some .warmup, lastError := some (some "credential_not_verified"),
        retryAt := some t }

/-- The lease of a member if it has expired, unless the member cools. -/
def expiredLease (identity : String) (t : Nat) (db : Db) : Option LeaseRow :=
  db.leases.find? fun l => l.memberIdentity = identity && l.expiresAt ≤ t
    && (db.inventory identity).any (·.state ≠ .cooling)

def reclaimMemberTx (identity : String) (credential : Option ProxyAccount) : StoreM Unit := do
  match ← select fun db => db.inventory identity with
  | none => pure ()
  | some member => do
      let t ← now env
      Tx.write fun w => { w with db := deleteExpiredOf identity t w.db }
      if member.state = .ready ∨ member.state = .cooling then
        if member.state = .cooling ∧ member.cooldownUntil ≤ t then
          let _ ← updateTx env identity { state := some .ready, cooldownUntil := some 0 }
        let row ← select fun db => db.inventory identity
        failUnusable env identity credential t (row.getD member)
      let t ← now env
      match ← select (expiredLease identity t) with
      | none => pure ()
      | some lease => do
          let held ← hasHolds env identity
          if held then pure () else do
          exec (.deleteLease lease.leaseId)
          recordEvent env { action := "lease_expired", identity := identity, caller := lease.callerId,
                            leaseId := lease.leaseId }

/-- A round of the loop: a row that is locked or missing is passed over. -/
def visit (moment : Moment) (identity : String) : StoreM Unit := do
  Tx.write fun w => { w with db := moment.others w.db }
  match moment.failure with
  | some error => Tx.raise error
  | none => do
      match ← select fun db => if moment.locked then none else db.account identity with
      | none => pure ()
      | some credential => reclaimMemberTx env identity (some credential)

end Member

section Reclaim

variable (env : Env)

/-- The loop over the candidates of a batch, from the `i`-th round on. -/
def reclaimLoop (moments : Nat → Moment) : Nat → List String → Process → ReclaimCall
  | _, [], process => ⟨[], .wholeBatch, process⟩
  | i, identity :: rest, process =>
      let round : Round := ⟨identity, moments i, process.world, visit env (moments i) identity process.world⟩
      match visit env (moments i) identity process.world with
      | (.error error, world) => ⟨[round], .thrown error, ⟨world, identity⟩⟩
      | (.ok _, world) =>
          if 1000 ≤ (moments i).elapsed then
            ⟨[round], if rest = [] then .wholeBatch else .budgetSpent, ⟨world, identity⟩⟩
          else
            (reclaimLoop moments (i + 1) rest ⟨world, identity⟩).after round

def reclaimTx (attempt : Attempt) (process : Process) : ReclaimCall :=
  match attempt.failure with
  | some error => ⟨[], .thrown error, process⟩
  | none =>
      let (_, world) := now env process.world
      let found := reclaimCandidates process.world.db (env.clock process.world.ticks)
      reclaimLoop env attempt.moments 0 ((rotation process.reclaimCursor found).take 32)
        { process with world }

/-- Calls of one process one after the other. In between anything can happen to the database, as long as
the next call finds the same candidates; what a call that has thrown did there is undone. -/
inductive Calls (candidates : Finset String) : String → List ReclaimCall → Prop
  | none (cursor : String) : Calls candidates cursor []
  | call (cursor : String) (world : World) (attempt : Attempt) (calls : List ReclaimCall)
      (stable : (reclaimCandidates world.db (env.clock world.ticks)).toFinset = candidates)
      (later : Calls candidates (reclaimTx env attempt ⟨world, cursor⟩).process.reclaimCursor calls) :
      Calls candidates cursor (reclaimTx env attempt ⟨world, cursor⟩ :: calls)

end Reclaim

/-- A row that is there and that nobody else has locked is reclaimed as the code does it. -/
def Round.Reclaims (env : Env) (round : Round) : Prop :=
  round.moment.failure = none → round.moment.locked = false →
    ∀ credential, (round.moment.others round.before.db).account round.identity = some credential →
      round.result = reclaimMemberTx env round.identity (some credential)
        { round.before with db := round.moment.others round.before.db }

section Rotation

variable {env : Env} {candidates : Finset String} {cursor : String} {calls : List ReclaimCall}

theorem visit_reclaims (moment : Moment) (identity : String) (world : World) :
    Round.Reclaims env ⟨identity, moment, world, visit env moment identity world⟩ := by
  intro sound free credential account
  dsimp only at sound free account ⊢
  unfold visit
  rw [sound]
  simp only [Tx.bind_run, Tx.write_run, select, Tx.read_run, free, Bool.false_eq_true, if_false, account]

theorem reclaimLoop_reclaims (moments : Nat → Moment) (i : Nat) (batch : List String) (process : Process) :
    ∀ round ∈ (reclaimLoop env moments i batch process).rounds, round.Reclaims env := by
  induction batch generalizing i process with
  | nil => exact List.forall_mem_nil _
  | cons identity rest ih =>
      have own : Round.Reclaims env _ := visit_reclaims (moments i) identity process.world
      rw [reclaimLoop]
      split
      · rw [List.forall_mem_singleton]
        exact own
      · split
        · rw [List.forall_mem_singleton]
          exact own
        · rw [ReclaimCall.after_rounds, List.forall_mem_cons]
          exact ⟨own, ih (i + 1) _⟩

theorem reclaimTx_reclaims (attempt : Attempt) (process : Process) :
    ∀ round ∈ (reclaimTx env attempt process).rounds, round.Reclaims env := by
  unfold reclaimTx
  split
  · exact List.forall_mem_nil _
  · exact reclaimLoop_reclaims _ _ _ _

theorem Calls.reclaims (run : Calls env candidates cursor calls) :
    ∀ call ∈ calls, ∀ round ∈ call.rounds, round.Reclaims env := by
  induction run with
  | none cursor => exact List.forall_mem_nil _
  | call cursor world attempt calls stable later ih =>
      exact List.forall_mem_cons.mpr ⟨reclaimTx_reclaims attempt ⟨world, cursor⟩, ih⟩

/-- A call visits the front of its batch, and the cursor stays at the last candidate visited. -/
theorem reclaimLoop_front (moments : Nat → Moment) (i : Nat) (batch : List String) (process : Process) :
    (reclaimLoop env moments i batch process).visited <+: batch
      ∧ (reclaimLoop env moments i batch process).process.reclaimCursor
        = (reclaimLoop env moments i batch process).visited.getLastD process.reclaimCursor
      ∧ ((reclaimLoop env moments i batch process).ending = .wholeBatch →
        (reclaimLoop env moments i batch process).visited = batch) := by
  induction batch generalizing i process with
  | nil => exact ⟨List.prefix_rfl, rfl, fun _ => rfl⟩
  | cons identity rest ih =>
      rw [reclaimLoop]
      split
      · exact ⟨⟨rest, rfl⟩, rfl, nofun⟩
      · rename_i world _
        split
        · refine ⟨⟨rest, rfl⟩, rfl, fun whole => ?_⟩
          dsimp only at whole
          split at whole
          · rename_i last
            rw [last]
            rfl
          · cases whole
        · obtain ⟨front, last, whole⟩ := ih (i + 1) ⟨world, identity⟩
          rw [ReclaimCall.after_visited, ReclaimCall.after_process, ReclaimCall.after_ending, last,
            List.getLastD_cons]
          exact ⟨List.cons_prefix_cons.mpr ⟨rfl, front⟩, rfl, fun ends => by rw [whole ends]⟩

theorem reclaimTx_front (attempt : Attempt) (process : Process) :
    let keys := reclaimCandidates process.world.db (env.clock process.world.ticks)
    (reclaimTx env attempt process).visited <+: rotation process.reclaimCursor keys
      ∧ (reclaimTx env attempt process).process.reclaimCursor
        = (reclaimTx env attempt process).visited.getLastD process.reclaimCursor
      ∧ ((reclaimTx env attempt process).ending = .wholeBatch →
        (reclaimTx env attempt process).visited.length = min 32 keys.length) := by
  dsimp only
  unfold reclaimTx
  split
  · exact ⟨List.nil_prefix, rfl, nofun⟩
  · obtain ⟨front, last, whole⟩ := @reclaimLoop_front env attempt.moments 0
      ((rotation process.reclaimCursor (reclaimCandidates process.world.db
        (env.clock process.world.ticks))).take 32)
      { process with world := (now env process.world).2 }
    refine ⟨front.trans (List.take_prefix _ _), last, fun ends => ?_⟩
    rw [whole ends, List.length_take, (rotation_perm _ _).length_eq]

/-- What the calls visit are sweeps over the candidates. -/
theorem Calls.sweeps (run : Calls env candidates cursor calls) :
    Sweeps candidates.toList cursor (calls.map (·.visited))
      ∧ calls.countP (·.ending = .wholeBatch)
        ≤ wholeSweeps 32 candidates.toList (calls.map (·.visited)) := by
  induction run with
  | none cursor => exact ⟨.done cursor, Nat.le_refl _⟩
  | call cursor world attempt calls stable later ih =>
      obtain ⟨front, last, whole⟩ := @reclaimTx_front env attempt ⟨world, cursor⟩
      have perm : (reclaimCandidates world.db (env.clock world.ticks)).Perm candidates.toList :=
        List.perm_of_nodup_nodup_toFinset_eq (List.nodup_dedup _) candidates.nodup_toList
          (by rw [stable, Finset.toList_toFinset])
      rw [rotation_congr cursor perm] at front
      rw [last] at ih
      refine ⟨.sweep cursor _ _ front ih.1, ?_⟩
      rw [List.map_cons, wholeSweeps, List.countP_cons, List.countP_cons]
      have step : (if (decide ((reclaimTx env attempt ⟨world, cursor⟩).ending = .wholeBatch)) then 1 else 0)
          ≤ if (decide ((reclaimTx env attempt ⟨world, cursor⟩).visited.length
            = min 32 candidates.toList.length)) then 1 else 0 := by
        split
        · rename_i ends
          rw [if_pos]
          rw [decide_eq_true_eq] at ends ⊢
          rw [whole ends, perm.length_eq]
        · exact Nat.zero_le _
      exact Nat.add_le_add ih.2 step

/-- As many whole calls as there are batches of candidates, and one more, visit every candidate, and a visited
row that nobody else has locked is reclaimed. -/
theorem reclaimTx_visits_all (run : Calls env candidates cursor calls)
    (whole : (candidates.card + 31) / 32 + 1 ≤ calls.countP (·.ending = .wholeBatch)) :
    ∀ identity ∈ candidates, ∃ call ∈ calls, ∃ round ∈ call.rounds, round.identity = identity
      ∧ round.Reclaims env := by
  intro identity mem
  obtain ⟨sweeps, count⟩ := run.sweeps
  have enough : candidates.toList.length
      ≤ 32 * wholeSweeps 32 candidates.toList (calls.map (·.visited)) := by
    rw [Finset.length_toList]
    omega
  obtain ⟨visited, inVisits, found⟩ :=
    sweeps.covers candidates.nodup_toList enough (Finset.mem_toList.mpr mem)
  obtain ⟨call, inCalls, rfl⟩ := List.mem_map.mp inVisits
  obtain ⟨round, inRounds, isIdentity⟩ := List.mem_map.mp found
  exact ⟨call, inCalls, round, inRounds, isIdentity, run.reclaims call inCalls round inRounds⟩

end Rotation

/-- The members `ab.n00`, `ab.n01` and so on. -/
def Sample.held (n : Nat) : String := String.ofList ['a', 'b', '.', 'n', Char.ofNat (48 + n / 10), Char.ofNat (48 + n % 10)]

/-- Expired leases of thirty-four members. The lease of the last one is held. -/
def Sample.expired : World := { Sample.world with
  db := { Sample.db with
    accounts := (List.range 34).map fun n => Sample.account (Sample.held n)
    members := (List.range 34).map fun n => Sample.member (Sample.held n) n
    leases := (List.range 34).map fun n =>
      ⟨Sample.caller, Sample.held n, Sample.held n, .active, 0, some 0, 1⟩
    holds := [⟨"request", Sample.held 33, 9000000, 9000000, 0⟩] } }

/-- Another transaction has the rows that come first. -/
def Sample.busy : Attempt where
  failure := none
  moments i := { others := id, locked := i < 30, failure := none, elapsed := 0 }

def Sample.keys : List String := reclaimCandidates Sample.expired.db (Sample.env.clock Sample.expired.ticks)

/-- Calls that each find the leases expired again. -/
def Sample.sweeps : Nat → String → List ReclaimCall
  | 0, _ => []
  | n + 1, cursor =>
      let call := reclaimTx Sample.env Sample.busy ⟨Sample.expired, cursor⟩
      call :: Sample.sweeps n call.process.reclaimCursor

theorem Sample.calls_sweeps (n : Nat) (cursor : String) :
    Calls Sample.env Sample.keys.toFinset cursor (Sample.sweeps n cursor) := by
  induction n generalizing cursor with
  | zero => exact .none cursor
  | succ n ih => exact .call cursor Sample.expired Sample.busy _ rfl (ih _)

/-- Two batches, most of which is locked: three calls come to the member that is held. -/
theorem reclaimTx_visits_pinned : ∃ call ∈ Sample.sweeps 3 "gone", ∃ round ∈ call.rounds,
    round.identity = Sample.held 33 ∧ round.Reclaims Sample.env := by
  have found : Sample.keys.length = 34 ∧ Sample.held 33 ∈ Sample.keys
      ∧ (Sample.sweeps 3 "gone").countP (·.ending = .wholeBatch) = 3 := by
    decide +kernel
  have card := List.toFinset_card_le Sample.keys
  rw [found.1] at card
  refine reclaimTx_visits_all (Sample.calls_sweeps 3 "gone") ?_ _ (List.mem_toFinset.mpr found.2.1)
  rw [found.2.2]
  omega

end GhcpConsole.Pool.Mysql
