import GhcpConsole.EmuImport.Transaction

/-!
# Calls of `applyEmuImportPlan`

Any number of calls on one plan. A call reads the pending rows and hashes the passwords of the users they
create, which takes time, and then applies the plan in one transaction. In between others may apply the
plan, change users and settings, or delete the plan.

Users are bound to SCIM users, and over all the calls this stays an injective map, since the planner has
made pending rows of different SCIM users and the transaction stops a row whose user or id is bound
otherwise.
-/

namespace GhcpConsole.EmuImport

open Sso

/-- The enterprise, and for each call that is hashing the rows it hashes passwords for. -/
structure Calls where
  db : Db
  hashing : List (List Nat)

/-- The rows that `hashNewUserPasswords` hashes a password for. -/
def rowsToHash (plan : EmuImportPlan) : List Nat :=
  ((plan.rows.filter (·.isPending)).filter (·.action = some .create)).map (·.rowIndex)

section Calls

variable (letters : LowerCase)

/-- What can happen next; a call that ends has a result. -/
inductive Step (calls : Calls) : Option (Except ApplyError EmuImportPlan) → Calls → Prop where
  | missing (h : calls.db.plan = none) : Step calls (some (.error .planNotFound)) calls
  | hash (plan : EmuImportPlan) (h : calls.db.plan = some plan) :
      Step calls none { calls with hashing := rowsToHash plan :: calls.hashing }
  | hashFailed (rows : List Nat) (h : rows ∈ calls.hashing) (message : String) :
      Step calls (some (.error (.other message))) { calls with hashing := calls.hashing.erase rows }
  | apply (rows : List Nat) (h : rows ∈ calls.hashing) (eventFails : Name → Bool)
      (passwordHashes : Nat → Option PasswordHash)
      (hashed : ∀ i, (passwordHashes i).isSome = true ↔ i ∈ rows) :
      Step calls (some (applyEmuImportPlan letters eventFails passwordHashes calls.db).1)
        { db := (applyEmuImportPlan letters eventFails passwordHashes calls.db).2
          hashing := calls.hashing.erase rows }
  | change (users : List SsoUserRecord) (valid : ValidUsers letters users) (poolManaged : List Name)
      (maxSsoUsers : Option Nat) :
      Step calls none { calls with db := { calls.db with users, poolManaged, maxSsoUsers } }
  | deletePlan : Step calls none { calls with db := { calls.db with plan := none } }

inductive Reachable (start : Calls) : Calls → Prop where
  | start : Reachable start start
  | step {calls calls' : Calls} {result : Option (Except ApplyError EmuImportPlan)}
      (before : Reachable start calls) (h : Step letters calls result calls') :
      Reachable start calls'

/-- A plan as it was built and stored, and no call yet. -/
structure Planned (calls : Calls) : Prop where
  users : ValidUsers letters calls.db.users
  plan : ∃ shortcode copilotSeats emailDomain users, ∃ scimUsers : List ScimUserResource,
    (scimUsers.filterMap fun user => user.id.filter (· ≠ "")).Nodup ∧
      calls.db.plan = some (storedPlan
        (buildEmuImportPlan letters shortcode copilotSeats emailDomain users scimUsers))
  applied : calls.db.applied = []
  hashing : calls.hashing = []

/-- The map from local user to SCIM id is injective. -/
def InjectiveIds (users : List SsoUserRecord) : Prop :=
  ∀ a ∈ users, ∀ b ∈ users, ∀ id, a.boundTo = some id → b.boundTo = some id → a.ssoUser = b.ssoUser

/-- Every user that is bound stays bound to its id. -/
def KeepsIds (users users' : List SsoUserRecord) : Prop :=
  ∀ user ∈ users, ∀ id, user.boundTo = some id →
    ∃ user' ∈ users', user'.ssoUser = user.ssoUser ∧ user'.boundTo = some id

/-- What the end of a call has done. -/
structure CallEnds (db : Db) (result : Except ApplyError EmuImportPlan) (db' : Db) : Prop where
  returned : ∀ plan, result = .ok plan →
    db'.plan = some plan ∧ ∀ row ∈ plan.rows, row.isPending = false
  threw : ∀ error, result = .error error → db' = db
  /-- Users change only with rows that are noted as applied. -/
  noted : ∃ rows, db'.applied = db.applied ++ rows ∧ (rows = [] → db'.users = db.users)
  injective : InjectiveIds db.users → InjectiveIds db'.users
  kept : KeepsIds db.users db'.users

end Calls

section Proofs

variable {letters : LowerCase} {db db' : Db} {calls calls' start : Calls}
variable {pending : List EmuImportPlanRowRecord} {row : EmuImportPlanRowRecord} {id : String}

theorem KeepsIds.refl (users : List SsoUserRecord) : KeepsIds users users :=
  fun user mem _ isId => ⟨user, mem, rfl, isId⟩

theorem CallEnds.threw_only (error : ApplyError) : CallEnds db (.error error) db where
  returned plan isPlan := by cases isPlan
  threw _ _ := rfl
  noted := ⟨[], (List.append_nil _).symm, fun _ => rfl⟩
  injective inj := inj
  kept := KeepsIds.refl _

variable (letters) in
/-- The index knows of every id that a user is bound to. -/
theorem byScimId_of_boundTo {users : List SsoUserRecord} {user : SsoUserRecord} (mem : user ∈ users)
    (isId : user.boundTo = some id) :
    ∃ bound ∈ users, (localUserIndex letters (listAllUsers users)).byScimId id = some bound ∧
      bound.boundTo = some id := by
  obtain ⟨isScimId, nonempty⟩ := Option.filter_eq_some_iff.mp isId
  have nonempty : id ≠ "" := by simpa using nonempty
  cases found : (localUserIndex letters (listAllUsers users)).byScimId id with
  | none =>
      have unbound := List.find?_eq_none.mp found user (List.mem_reverse.mpr (mem_listAllUsers.mpr mem))
      exact absurd unbound (by simp [isScimId, nonempty])
  | some bound =>
      have isBound := List.find?_some found
      simp only [Bool.and_eq_true, decide_eq_true_eq] at isBound
      exact ⟨bound, mem_listAllUsers.mp (List.mem_reverse.mp (List.mem_of_find?_eq_some found)), rfl,
        boundTo_of_ghScimId isBound.1 nonempty⟩

/-- A row that imports the id of a user names that user. -/
theorem Imports.names_bound {users : List SsoUserRecord} {user : SsoUserRecord}
    (valid : ValidUsers letters users) (inj : InjectiveIds users) (planned : PendingRow row)
    (imports : Imports letters users row id) (mem : user ∈ users) (isId : user.boundTo = some id) :
    user.isNamed row.ssoUser = true := by
  obtain ⟨complete, seat, row_ok, rfl⟩ := imports
  obtain ⟨bound, inUsers, found, isBound⟩ := byScimId_of_boundTo letters mem isId
  have same : user.ssoUser = bound.ssoUser := inj user mem bound inUsers _ isId isBound
  rw [← toLowerCase_eq_iff valid mem planned.name, same]
  exact row_ok.bound bound found

theorem Imports.ghScimId {users : List SsoUserRecord} (imports : Imports letters users row id) :
    row.ghScimId = some id := by
  obtain ⟨complete, seat, row_ok, rfl⟩ := imports
  exact (completeRow_ghScimId row_ok.isComplete).1

theorem same_of_isNamed {users : List SsoUserRecord} {a b : SsoUserRecord} {name : Name}
    (isNamed : a.isNamed name = true) (isNamed' : b.isNamed name = true)
    (valid : ValidUsers letters users) (memA : a ∈ users) (memB : b ∈ users) : a = b := by
  simp only [SsoUserRecord.isNamed, decide_eq_true_eq] at isNamed isNamed'
  exact valid.distinct.eq memA memB (isNamed.trans isNamed'.symm)

/-- Who was bound to an id before, and who is named by a row that imports the id, are one. -/
theorem BetweenRounds.imported_eq (h : BetweenRounds letters pending db [] db')
    (valid : ValidUsers letters db.users) (rows : PendingRows pending) (inj : InjectiveIds db.users)
    {a b old : SsoUserRecord} (memA : a ∈ db'.users) (memB : b ∈ db'.users) (mem : old ∈ db.users)
    (sameName : old.ssoUser = a.ssoUser) (isId : old.boundTo = some id) (inPending : row ∈ pending)
    (imports : Imports letters db.users row id) (isNamed : b.isNamed row.ssoUser = true) : a = b := by
  have oldNamed := imports.names_bound valid inj (rows.planned row inPending) mem isId
  have isNamed' : a.isNamed row.ssoUser = true := by
    rw [SsoUserRecord.isNamed, ← sameName]
    exact oldNamed
  exact same_of_isNamed isNamed' isNamed h.valid memA memB

/-- After the rounds the map is injective if it was before. -/
theorem BetweenRounds.injective (h : BetweenRounds letters pending db [] db')
    (valid : ValidUsers letters db.users) (rows : PendingRows pending) (ids : Keyed (·.ghScimId) pending)
    (inj : InjectiveIds db.users) : InjectiveIds db'.users := by
  intro a memA b memB id isIdA isIdB
  rcases h.bound a memA id isIdA with ⟨old, mem, sameName, isId⟩ | ⟨row, inPending, imports, isNamed⟩
  · rcases h.bound b memB id isIdB with ⟨old', mem', sameName', isId'⟩ | ⟨row', inPending', imports', isNamed'⟩
    · rw [← sameName, ← sameName']
      exact inj old mem old' mem' id isId isId'
    · rw [h.imported_eq valid rows inj memA memB mem sameName isId inPending' imports' isNamed']
  · rcases h.bound b memB id isIdB with ⟨old', mem', sameName', isId'⟩ | ⟨row', inPending', imports', isNamed'⟩
    · rw [h.imported_eq valid rows inj memB memA mem' sameName' isId' inPending imports isNamed]
    · have same : row = row' := ids.eq inPending inPending' (imports.ghScimId.trans imports'.ghScimId.symm)
      rw [same_of_isNamed isNamed (same ▸ isNamed') h.valid memA memB]

/-! ## One call -/

/-- What holds between the calls. -/
structure ValidCalls (letters : LowerCase) (db : Db) : Prop where
  stored : ValidDb letters db
  ids : ∀ plan, db.plan = some plan → DistinctScimIds plan.rows

theorem ValidCalls.pendingIds (valid : ValidCalls letters db) {plan : EmuImportPlan}
    (isPlan : db.plan = some plan) : Keyed (·.ghScimId) (plan.rows.filter (·.isPending)) := by
  rw [Keyed, List.Nodup, List.pairwise_map, List.pairwise_filter]
  exact (valid.ids plan isPlan).imp fun apart isPending isPending' =>
    apart (by simpa using isPending) (by simpa using isPending')

/-- A plan without pending rows. -/
theorem planRows_of_settled {rows : List EmuImportPlanRowRecord} (indexes : Keyed (·.rowIndex) rows)
    (settled : ∀ row ∈ rows, row.isPending = false) : PlanRows rows ∧ DistinctScimIds rows := by
  refine ⟨⟨indexes, fun row mem isPending => ?_, ?_⟩, ?_⟩
  · simp [settled row mem] at isPending
  · exact List.pairwise_of_forall_mem_list fun a memA b memB isPending => by simp [settled a memA] at isPending
  · exact List.pairwise_of_forall_mem_list fun a memA b memB isPending => by simp [settled a memA] at isPending

theorem applyEmuImportPlan_callEnds (valid : ValidCalls letters db) (eventFails : Name → Bool)
    (passwordHashes : Nat → Option PasswordHash) :
    CallEnds db (applyEmuImportPlan letters eventFails passwordHashes db).1
        (applyEmuImportPlan letters eventFails passwordHashes db).2 ∧
      ValidCalls letters (applyEmuImportPlan letters eventFails passwordHashes db).2 := by
  rcases applyEmuImportPlan_ends eventFails passwordHashes valid.stored with ⟨error, threw⟩ | ⟨plan, plan', reached, isPlan, isPlan', ends, returned⟩
  · rw [threw]
    exact ⟨.threw_only error, valid⟩
  · rw [returned]
    obtain ⟨_, isReached, indexes, isTodo⟩ := ends.plan
    obtain rfl := Option.some.inj (isPlan'.symm.trans isReached)
    have settled : ∀ row ∈ plan'.rows, row.isPending = false := fun row mem =>
      Bool.eq_false_iff.mpr fun isPending => List.not_mem_nil (isTodo row mem isPending)
    obtain ⟨planRows, distinct⟩ := planRows_of_settled indexes settled
    have rows := valid.stored.pendingRows isPlan
    refine ⟨⟨?_, ?_, ends.noted, ends.injective valid.stored.users rows (valid.pendingIds isPlan), ends.kept⟩,
      ⟨ends.valid, ends.once, ?_⟩, ?_⟩
    · rintro _ ⟨⟩
      exact ⟨rfl, settled⟩
    · rintro _ ⟨⟩
    · rintro _ ⟨⟩
      exact ⟨planRows, fun row mem isPending => absurd isPending (by simp [settled row mem])⟩
    · rintro _ ⟨⟩
      exact distinct

theorem Step.callEnds {result : Except ApplyError EmuImportPlan} (valid : ValidCalls letters calls.db)
    (h : Step letters calls (some result) calls') : CallEnds calls.db result calls'.db := by
  cases h with
  | missing => exact .threw_only _
  | hashFailed => exact .threw_only _
  | apply rows mem eventFails passwordHashes => exact (applyEmuImportPlan_callEnds valid eventFails passwordHashes).1

/-- One step keeps what holds between the calls. -/
theorem Step.valid {result : Option (Except ApplyError EmuImportPlan)} (valid : ValidCalls letters calls.db)
    (h : Step letters calls result calls') : ValidCalls letters calls'.db := by
  cases h with
  | missing => exact valid
  | hash => exact valid
  | hashFailed => exact valid
  | apply rows mem eventFails passwordHashes => exact (applyEmuImportPlan_callEnds valid eventFails passwordHashes).2
  | change users validUsers => exact ⟨⟨validUsers, valid.stored.once, valid.stored.plan⟩, valid.ids⟩
  | deletePlan =>
      refine ⟨⟨valid.stored.users, valid.stored.once, ?_⟩, ?_⟩
      · rintro _ ⟨⟩
      · rintro _ ⟨⟩

theorem Planned.valid (h : Planned letters start) : ValidCalls letters start.db := by
  obtain ⟨shortcode, copilotSeats, emailDomain, users, scimUsers, distinct, isPlan⟩ := h.plan
  refine ⟨⟨h.users, h.applied ▸ List.nodup_nil, fun plan same => ?_⟩, fun plan same => ?_⟩
  · obtain rfl := Option.some.inj (isPlan.symm.trans same)
    exact ⟨storedPlan_rows, fun row _ _ noted => List.not_mem_nil (h.applied ▸ noted)⟩
  · obtain rfl := Option.some.inj (isPlan.symm.trans same)
    exact storedPlan_ids distinct

theorem Reachable.valid (planned : Planned letters start) (h : Reachable letters start calls) :
    ValidCalls letters calls.db := by
  induction h with
  | start => exact planned.valid
  | step _ h ih => exact h.valid ih

/-- Over all calls a row is applied to users at most once. A call that returns leaves no row pending, one
that throws has changed nothing, and the map from user to SCIM id stays injective and keeps its pairs. -/
theorem applyEmuImportPlan_calls (planned : Planned letters start)
    (h : Reachable letters start calls) :
    calls.db.applied.Nodup ∧ ∀ result calls', Step letters calls (some result) calls' →
      CallEnds calls.db result calls'.db :=
  ⟨(h.valid planned).stored.once, fun _ _ step => step.callEnds (h.valid planned)⟩

end Proofs

/-- GitHub has two users, who are not known here. -/
def newScimUsers : List ScimUserResource :=
  [{ id := some "42", externalId := none, userName := ['a', 'd', 'a'], emails := [], active := some true,
     githubLogin := none },
   { id := some "43", externalId := none, userName := ['b', 'o', 'b'], emails := [], active := some true,
     githubLogin := none }]

def newRowsPlan : EmuImportPlan :=
  storedPlan (buildEmuImportPlan asciiLetters [] (fun _ => none) ['x', '.', 'y'] [] newScimUsers)

def newRowsCalls : Calls where
  db := { users := [], poolManaged := [], maxSsoUsers := none, plan := some newRowsPlan, applied := [] }
  hashing := []

theorem newRowsCalls_planned : Planned asciiLetters newRowsCalls where
  users := ⟨List.nodup_nil, fun _ mem => absurd mem List.not_mem_nil⟩
  plan := ⟨[], fun _ => none, ['x', '.', 'y'], [], newScimUsers, by decide, rfl⟩
  applied := rfl
  hashing := rfl

def bothHashes (i : Nat) : Option PasswordHash := if i ∈ [1, 2] then some ⟨"hash", "salt"⟩ else none

/-- Of three calls that have hashed the passwords of both rows, one has thrown when `bob` was created, one has
then applied the plan, and the third is still hashing. -/
def twiceApplied : Calls where
  db := (applyEmuImportPlan asciiLetters (fun _ => false) bothHashes
    (applyEmuImportPlan asciiLetters (· = ['b', 'o', 'b']) bothHashes newRowsCalls.db).2).2
  hashing := [[1, 2]]

theorem reachable_twiceApplied : Reachable asciiLetters newRowsCalls twiceApplied := by
  have hashed : ∀ i, (bothHashes i).isSome = true ↔ i ∈ [1, 2] := by
    intro i
    unfold bothHashes
    split
    · rename_i mem
      simp [mem]
    · rename_i other
      simp [other]
  have first := Reachable.step .start (.hash newRowsPlan rfl : Step asciiLetters newRowsCalls _ _)
  have second := Reachable.step first (.hash newRowsPlan rfl)
  have third := Reachable.step second (.hash newRowsPlan rfl)
  have threw := Reachable.step third (.apply [1, 2] (by decide) (· = ['b', 'o', 'b']) bothHashes hashed)
  exact .step threw (.apply [1, 2] (by decide) (fun _ => false) bothHashes hashed)

/-- The theorem where one call has thrown, another one has applied both rows, and a third one is to end. -/
theorem applyEmuImportPlan_calls_hashing :
    twiceApplied.db.applied = [1, 2] ∧ twiceApplied.db.applied.Nodup ∧
      ∀ result calls', Step asciiLetters twiceApplied (some result) calls' →
        CallEnds twiceApplied.db result calls'.db :=
  ⟨by decide +kernel, applyEmuImportPlan_calls newRowsCalls_planned reachable_twiceApplied⟩

end GhcpConsole.EmuImport
