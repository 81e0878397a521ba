import GhcpConsole.EmuImport.Transaction

/-!
# What one row does to the others

The round of a row that is refused writes to the plan only, and no other round reads what it writes. So
the transaction does to the rest of the plan what it would have done without the row. Taking a row out of
the plan commutes with every part of the transaction.

Two kinds of rows are not refused but throw, and with them the whole plan is rolled back: an update of a
user that the pool manages, and a created user whose event cannot be logged.
-/

namespace GhcpConsole.EmuImport

open Sso

def EmuImportPlan.without (index : Nat) (plan : EmuImportPlan) : EmuImportPlan :=
  { plan with rows := plan.rows.filter (·.rowIndex ≠ index) }

/-- The database with a plan that does not have the row. -/
def Db.without (index : Nat) (db : Db) : Db := { db with plan := db.plan.map (·.without index) }

/-! ## Taking a row out of the plan -/

section Commutes

variable {index : Nat} {letters : LowerCase} {eventFails : Name → Bool}

theorem createUser_commutes (user : SsoUserRecord) : Tx.Commutes (Db.without index) (createUser user) := by
  refine Tx.Commutes.transaction (.bind ?_ fun _ => .bind ?_ fun _ => .bind (.read fun _ => rfl) fun created => ?_)
    fun _ _ => rfl
  · refine .bind (.read fun _ => rfl) fun limit => ?_
    cases limit with
    | none => exact .pure _
    | some limit =>
        refine .bind (.read fun _ => rfl) fun current => ?_
        split
        · exact .raise _
        · exact .pure _
  · refine .bind (.read fun _ => rfl) fun taken => ?_
    cases taken with
    | true => exact .raise _
    | false => exact .write fun _ => rfl
  · cases created with
    | none => exact .raise _
    | some created => exact .pure _

theorem updateWhere_commutes (name : Name) (set : SsoUserRecord → SsoUserRecord) :
    Tx.Commutes (Db.without index) (updateWhere name set) := .write fun _ => rfl

theorem requireUser_commutes (name : Name) : Tx.Commutes (Db.without index) (requireUser name) := by
  refine .bind (.read fun _ => rfl) fun user => ?_
  cases user with
  | none => exact .raise _
  | some user => exact .pure _

theorem updateUser_commutes (name : Name) (email : List Char) :
    Tx.Commutes (Db.without index) (updateUser name email) := by
  refine .bind (.read fun _ => rfl) fun current => ?_
  cases current with
  | none => exact .pure _
  | some current =>
      refine .bind (.read fun _ => rfl) fun managed => ?_
      cases managed with
      | true => exact .raise _
      | false => exact .bind (updateWhere_commutes name _) fun _ => .read fun _ => rfl

theorem importSeatSnapshot_commutes (row : EmuImportPlanRowRecord) :
    Tx.Commutes (Db.without index) (importSeatSnapshot row) := by
  unfold importSeatSnapshot
  split
  · split
    · exact .pure _
    · exact .raise _
  · exact .pure _
  · exact .pure _
  · exact .raise _

theorem appendUserEvent_commutes (user : SsoUserRecord) :
    Tx.Commutes (Db.without index) (appendUserEvent eventFails user) := by
  unfold appendUserEvent
  split
  · exact .raise _
  · exact .pure _

theorem applyEmuImportRow_commutes (row : EmuImportPlanRowRecord) (passwordHash : Option PasswordHash) :
    Tx.Commutes (Db.without index) (applyEmuImportRow eventFails row passwordHash) := by
  unfold applyEmuImportRow
  split
  · exact .pure _
  · split
    · exact .pure _
    · split
      · cases passwordHash with
        | none => exact .pure _
        | some passwordHash =>
            exact .bind (createUser_commutes _) fun _ =>
              .bind (.bind (updateWhere_commutes _ _) fun _ => requireUser_commutes _) fun _ =>
              .bind (importSeatSnapshot_commutes row) fun _ =>
              .bind (.bind (updateWhere_commutes _ _) fun _ => requireUser_commutes _) fun _ =>
              .bind (appendUserEvent_commutes _) fun _ => .bind (.write fun _ => rfl) fun _ => .pure _
      · exact .bind (updateUser_commutes _ _) fun _ =>
          .bind (.bind (updateWhere_commutes _ _) fun _ => requireUser_commutes _) fun _ =>
          .bind (importSeatSnapshot_commutes row) fun _ =>
          .bind (.bind (updateWhere_commutes _ _) fun _ => requireUser_commutes _) fun _ =>
          .bind (.write fun _ => rfl) fun _ => .pure _
      · exact .pure _

theorem applyPendingRow_commutes (row : EmuImportPlanRowRecord) (users : LocalUserIndex)
    (passwordHash : Option PasswordHash) :
    Tx.Commutes (Db.without index) (applyPendingRow letters eventFails row users passwordHash) := by
  refine .bind (.tryReturn ?_) fun result => ?_
  · unfold applyStoredEmuImportRow
    split
    · exact .pure _
    · exact applyEmuImportRow_commutes row passwordHash
  · cases result with
    | ok applied => exact .pure _
    | error error => exact .pure _

theorem setRow_without_comm (applied : EmuImportPlanRowRecord) (plan : EmuImportPlan) :
    (plan.without index).setRow applied = (plan.setRow applied).without index := by
  simp only [EmuImportPlan.without, EmuImportPlan.setRow, List.filter_map]
  congr 2
  refine List.filter_congr fun row _ => ?_
  rw [Function.comp_apply, setColumns_rowIndex]

/-- Nothing is left of a row that is taken out. -/
theorem setRow_without (applied : EmuImportPlanRowRecord) (isRow : applied.rowIndex = index)
    (plan : EmuImportPlan) : (plan.setRow applied).without index = plan.without index := by
  rw [← setRow_without_comm]
  simp only [EmuImportPlan.without, EmuImportPlan.setRow]
  congr 1
  refine (List.map_congr_left fun row mem => ?_).trans (List.map_id _)
  have elsewhere : row.rowIndex ≠ index := by simpa using (List.mem_filter.mp mem).2
  rw [setColumns_of_ne (isRow ▸ elsewhere), id]

theorem applyRound_commutes (users : LocalUserIndex) (passwordHashes : Nat → Option PasswordHash)
    (row : EmuImportPlanRowRecord) :
    Tx.Commutes (Db.without index) (applyRound letters eventFails users passwordHashes row) := by
  refine .bind (applyPendingRow_commutes row users _) fun applied => .write fun db => ?_
  simp only [Db.without, Option.map_map]
  congr 2
  funext plan
  exact setRow_without_comm applied plan

end Commutes

/-! ## The turn of a row -/

section Turns

variable {letters : LowerCase} {eventFails : Name → Bool} {passwordHashes : Nat → Option PasswordHash}
variable {start db db' : Db} {plan : EmuImportPlan} {row : EmuImportPlanRowRecord}
variable {before after : List EmuImportPlanRowRecord}

/-- There is room for `more` users and one. -/
def hasRoom (db : Db) (more : Nat) : Bool := db.maxSsoUsers.all (db.users.length + more < ·)

/-- The row creates a user if there is room. -/
def creates (letters : LowerCase) (passwordHashes : Nat → Option PasswordHash) (start : Db)
    (row : EmuImportPlanRowRecord) : Bool :=
  (staleConflictForRow letters row (localUserIndex letters (listAllUsers start.users))).isNone &&
    row.action = some .create && (passwordHashes row.rowIndex).isSome

theorem limitOf_eq_none : limitOf db = none ↔ hasRoom db 0 = true := by
  rw [limitOf, hasRoom]
  cases db.maxSsoUsers <;> simp [Option.filter_some]

theorem hasRoom_of_add {more extra : Nat} (room : hasRoom db (more + extra) = true) :
    hasRoom db more = true := by
  unfold hasRoom at *
  cases isLimit : db.maxSsoUsers with
  | none => rfl
  | some limit =>
      rw [isLimit, Option.all_some, decide_eq_true_eq] at room
      rw [Option.all_some, decide_eq_true_eq]
      omega

/-- The state in which the row after `before` has its turn. -/
structure Turn (letters : LowerCase) (passwordHashes : Nat → Option PasswordHash) (start : Db)
    (before after : List EmuImportPlanRowRecord) (db : Db) : Prop where
  between : BetweenRounds letters (before ++ after) start after db
  room : ∀ more, hasRoom db more =
    hasRoom start (before.countP (creates letters passwordHashes start) + more)

theorem Turn.first (between : BetweenRounds letters after start after start) :
    Turn letters passwordHashes start [] after start where
  between := between
  room more := by rw [List.countP_nil, Nat.zero_add]

/-- The room that a round takes. -/
theorem RowEnds.room {applied : EmuImportPlanRowRecord} (more : Nat)
    (ends : RowEnds letters eventFails (localUserIndex letters (listAllUsers start.users)) row
      (passwordHashes row.rowIndex) db (.ok applied, db')) :
    hasRoom db' more =
      hasRoom db ((if creates letters passwordHashes start row then 1 else 0) + more) := by
  cases ends with
  | refused isRow status why =>
      split
      · rename_i isCreate
        simp only [creates, Bool.and_eq_true, decide_eq_true_eq] at isCreate
        have full : hasRoom db 0 = false := by
          rcases why with stale | ⟨_, unhashed | full⟩
          · exact absurd (Option.isNone_iff_eq_none.mp isCreate.1.1) stale
          · simp [unhashed] at isCreate
          · exact Bool.eq_false_iff.mpr fun room => full (limitOf_eq_none.mpr room)
        have none : ∀ more, hasRoom db more = false := fun more => Bool.eq_false_iff.mpr fun room => by
          rw [← Nat.zero_add more] at room
          exact Bool.eq_false_iff.mp full (hasRoom_of_add room)
        rw [none, none]
      · rw [Nat.zero_add]
  | created isRow status current row_ok create hashed room logged =>
      have isCreate : creates letters passwordHashes start row = true := by
        simp [creates, current, create, hashed]
      rw [if_pos isCreate, hasRoom, hasRoom]
      simp only [List.length_append, List.length_singleton, Nat.add_assoc]
  | updated isRow status current row_ok update found unmanaged =>
      have noCreate : ¬ creates letters passwordHashes start row = true := by
        simp [creates, update]
      rw [if_neg noCreate, hasRoom, hasRoom, setNamed, List.length_map, Nat.zero_add]

/-- What one round comes to. -/
theorem Turn.round_ends (turn : Turn letters passwordHashes start before (row :: after) db)
    (valid : ValidUsers letters start.users) (rows : PendingRows (before ++ row :: after)) :
    RowEnds letters eventFails (localUserIndex letters (listAllUsers start.users)) row
      (passwordHashes row.rowIndex) db (applyPendingRow letters eventFails row
        (localUserIndex letters (listAllUsers start.users)) (passwordHashes row.rowIndex) db) :=
  applyPendingRow_ends letters eventFails _ row _ db (rows.planned row (turn.between.rest.mem (.head _)))
    (turn.between.index valid rows)

theorem Turn.round (turn : Turn letters passwordHashes start before (row :: after) db)
    (valid : ValidUsers letters start.users) (rows : PendingRows (before ++ row :: after))
    (run : applyRound letters eventFails (localUserIndex letters (listAllUsers start.users)) passwordHashes row
      db = (.ok ⟨⟩, db')) : Turn letters passwordHashes start (before ++ [row]) after db' where
  between := by
    rw [List.append_assoc, List.singleton_append]
    exact turn.between.round valid rows run
  room more := by
    obtain ⟨applied, reached, isRun, rfl⟩ := applyRound_eq_ok run
    have ends : RowEnds letters eventFails _ row _ db _ := turn.round_ends valid rows
    rw [isRun] at ends
    calc hasRoom reached more = hasRoom db (_ + more) := ends.room more
      _ = hasRoom start _ := turn.room _
      _ = hasRoom start ((before ++ [row]).countP _ + more) := by
          rw [List.countP_append, List.countP_singleton, Nat.add_assoc]

/-- The rounds of some more rows. -/
theorem Turn.rounds (valid : ValidUsers letters start.users) {between : List EmuImportPlanRowRecord}
    (turn : Turn letters passwordHashes start before (between ++ after) db)
    (rows : PendingRows (before ++ (between ++ after)))
    (run : between.forM (applyRound letters eventFails (localUserIndex letters (listAllUsers start.users))
      passwordHashes) db = (.ok ⟨⟩, db')) :
    Turn letters passwordHashes start (before ++ between) after db' := by
  induction between generalizing before db with
  | nil =>
      obtain ⟨-, rfl⟩ := Prod.mk.inj run
      rw [List.append_nil]
      exact turn
  | cons row between ih =>
      obtain ⟨⟨⟩, next, first, rest⟩ := Tx.bind_eq_ok.mp run
      rw [List.cons_append] at turn rows
      have nextTurn := turn.round valid rows first
      rw [← List.singleton_append, ← List.append_assoc] at rows ⊢
      exact ih nextTurn rows rest

/-! ## Returning -/

/-- When its turn comes the row cannot be applied: a stale conflict, an incomplete row, the limit of users,
or a user that the pool manages. -/
def CannotBeApplied (letters : LowerCase) (start : Db) (row : EmuImportPlanRowRecord) (turn : Db) : Prop :=
  staleConflictForRow letters row (localUserIndex letters (listAllUsers start.users)) ≠ none ∨
    completeRow row = none ∨ row.action = some .create ∧ limitOf turn ≠ none ∨
    row.action = some .update ∧ isPoolManagedSsoUser row.ssoUser turn = true

/-- No row that is up to date updates a user of the pool, and whoever is created can be logged. -/
def NothingThrows (letters : LowerCase) (eventFails : Name → Bool)
    (passwordHashes : Nat → Option PasswordHash) (start : Db) (pending : List EmuImportPlanRowRecord) : Prop :=
  ∀ before row after, pending = before ++ row :: after →
    staleConflictForRow letters row (localUserIndex letters (listAllUsers start.users)) = none →
      (row.action = some .update → isPoolManagedSsoUser row.ssoUser start = false) ∧
        (creates letters passwordHashes start row = true →
          hasRoom start (before.countP (creates letters passwordHashes start)) = true →
            eventFails row.ssoUser = false)

theorem isPoolManagedSsoUser_eq {user : SsoUserRecord} {name : Name} (isNamed : user.isNamed name = true)
    (pool : db.poolManaged = start.poolManaged) :
    isPoolManagedSsoUser user.ssoUser db = isPoolManagedSsoUser name start := by
  rw [SsoUserRecord.isNamed, decide_eq_true_eq] at isNamed
  rw [isPoolManagedSsoUser, isPoolManagedSsoUser, pool, isNamed]

theorem creates_iff : creates letters passwordHashes start row = true ↔
    staleConflictForRow letters row (localUserIndex letters (listAllUsers start.users)) = none ∧
      row.action = some .create ∧ passwordHashes row.rowIndex ≠ none := by
  simp only [creates, Bool.and_eq_true, Option.isNone_iff_eq_none, decide_eq_true_eq, and_assoc,
    Option.isSome_iff_ne_none]

/-- A round returns where nothing throws. -/
theorem Turn.round_returns (turn : Turn letters passwordHashes start before (row :: after) db)
    (valid : ValidUsers letters start.users) (rows : PendingRows (before ++ row :: after))
    (quiet : NothingThrows letters eventFails passwordHashes start (before ++ row :: after)) :
    ∃ db', applyRound letters eventFails (localUserIndex letters (listAllUsers start.users)) passwordHashes row
      db = (.ok ⟨⟩, db') := by
  have ends : RowEnds letters eventFails _ row _ db _ := turn.round_ends valid rows
  rcases run : applyPendingRow letters eventFails row (localUserIndex letters (listAllUsers start.users))
    (passwordHashes row.rowIndex) db with ⟨_ | applied, reached⟩
  · rw [run] at ends
    cases ends with
    | unlogged current create hashed room unlogged =>
        have room : hasRoom start (before.countP (creates letters passwordHashes start)) = true := by
          rw [limitOf_eq_none, turn.room] at room
          exact room
        have logged := (quiet before row after rfl current).2 (creates_iff.mpr ⟨current, create, hashed⟩) room
        exact absurd (unlogged.symm.trans logged) (by simp)
    | managed current update found managed =>
        have unmanaged := (quiet before row after rfl current).1 update
        rw [← isPoolManagedSsoUser_eq (isNamed_of_getUser found) turn.between.pool, managed] at unmanaged
        cases unmanaged
  · exact ⟨_, Tx.bind_ok run⟩

/-- What a round that returns says of what would throw. -/
theorem Turn.quiet (turn : Turn letters passwordHashes start before (row :: after) db)
    (valid : ValidUsers letters start.users) (rows : PendingRows (before ++ row :: after))
    (run : applyRound letters eventFails (localUserIndex letters (listAllUsers start.users)) passwordHashes row
      db = (.ok ⟨⟩, db'))
    (current : staleConflictForRow letters row (localUserIndex letters (listAllUsers start.users)) = none) :
    (row.action = some .update → isPoolManagedSsoUser row.ssoUser start = false) ∧
      (creates letters passwordHashes start row = true →
        hasRoom start (before.countP (creates letters passwordHashes start)) = true →
          eventFails row.ssoUser = false) := by
  obtain ⟨applied, reached, isRun, rfl⟩ := applyRound_eq_ok run
  have ends : RowEnds letters eventFails _ row _ db _ := turn.round_ends valid rows
  rw [isRun] at ends
  cases ends with
  | refused isRow status why =>
      rcases why with stale | ⟨create, unhashed⟩
      · exact absurd current stale
      · refine ⟨fun update => ?_, fun isCreate room => ?_⟩
        · rw [create] at update
          cases update
        · rcases unhashed with unhashed | full
          · exact absurd unhashed (creates_iff.mp isCreate).2.2
          · exact absurd (limitOf_eq_none.mpr ((turn.room 0).trans room)) full
  | created isRow status current row_ok create hashed room logged =>
      refine ⟨fun update => ?_, fun _ _ => logged⟩
      rw [create] at update
      cases update
  | updated isRow status current row_ok update found unmanaged =>
      refine ⟨fun _ => ?_, fun isCreate => ?_⟩
      · rw [← isPoolManagedSsoUser_eq (isNamed_of_getUser found) turn.between.pool]
        exact unmanaged
      · have create := (creates_iff.mp isCreate).2.1
        rw [update] at create
        cases create

theorem Turn.rounds_return (valid : ValidUsers letters start.users)
    (turn : Turn letters passwordHashes start before after db) (rows : PendingRows (before ++ after))
    (quiet : NothingThrows letters eventFails passwordHashes start (before ++ after)) :
    ∃ db', after.forM (applyRound letters eventFails (localUserIndex letters (listAllUsers start.users))
      passwordHashes) db = (.ok ⟨⟩, db') := by
  induction after generalizing before db with
  | nil => exact ⟨db, rfl⟩
  | cons row after ih =>
      obtain ⟨next, first⟩ := turn.round_returns valid rows quiet
      have nextTurn := turn.round valid rows first
      rw [← List.singleton_append, ← List.append_assoc] at rows quiet
      obtain ⟨db', rest⟩ := ih nextTurn rows quiet
      exact ⟨db', (Tx.bind_ok first).trans rest⟩

/-- The rounds return where nothing throws, and only there. -/
theorem rounds_return_iff (valid : ValidDb letters start) (isPlan : start.plan = some plan) :
    (∃ db', (plan.rows.filter (·.isPending)).forM (applyRound letters eventFails
      (localUserIndex letters (listAllUsers start.users)) passwordHashes) start = (.ok ⟨⟩, db')) ↔
      NothingThrows letters eventFails passwordHashes start (plan.rows.filter (·.isPending)) := by
  have rows := valid.pendingRows isPlan
  have first : Turn letters passwordHashes start [] (plan.rows.filter (·.isPending)) start :=
    .first (valid.betweenRounds isPlan)
  constructor
  · rintro ⟨db', run⟩ before row after split current
    rw [split] at run rows first
    obtain ⟨turnDb, run, rest⟩ := Tx.forM_append_eq_ok.mp run
    obtain ⟨⟨⟩, next, round, -⟩ := Tx.bind_eq_ok.mp rest
    have turn := Turn.rounds valid.users first rows run
    exact turn.quiet valid.users rows round current
  · exact fun quiet => first.rounds_return valid.users rows quiet

/-! ## Leaving a row out -/

/-- A row that cannot be applied when its turn comes writes to the plan only. -/
theorem Turn.refused (turn : Turn letters passwordHashes start before (row :: after) db)
    (valid : ValidUsers letters start.users) (rows : PendingRows (before ++ row :: after))
    (cannot : CannotBeApplied letters start row db)
    (run : applyRound letters eventFails (localUserIndex letters (listAllUsers start.users)) passwordHashes row
      db = (.ok ⟨⟩, db')) :
    ∃ applied : EmuImportPlanRowRecord, applied.rowIndex = row.rowIndex ∧
      (applied.status = .conflict ∨ applied.status = .failed) ∧
      db' = { db with plan := db.plan.map (·.setRow applied) } := by
  obtain ⟨applied, reached, isRun, rfl⟩ := applyRound_eq_ok run
  have ends : RowEnds letters eventFails _ row _ db _ := turn.round_ends valid rows
  rw [isRun] at ends
  cases ends with
  | refused isRow status why => exact ⟨applied, isRow, status, rfl⟩
  | created isRow status current row_ok create hashed room logged =>
      exfalso
      rcases cannot with stale | incomplete | ⟨_, full⟩ | ⟨update, _⟩
      · exact stale current
      · rw [row_ok.isComplete] at incomplete
        cases incomplete
      · exact full room
      · rw [create] at update
        cases update
  | updated isRow status current row_ok update found unmanaged =>
      exfalso
      rcases cannot with stale | incomplete | ⟨create, _⟩ | ⟨_, managed⟩
      · exact stale current
      · rw [row_ok.isComplete] at incomplete
        cases incomplete
      · rw [update] at create
        cases create
      · rw [isPoolManagedSsoUser_eq (isNamed_of_getUser found) rfl, managed] at unmanaged
        cases unmanaged

theorem pendingRows_without (rows : PendingRows (before ++ row :: after))
    (split : plan.rows.filter (·.isPending) = before ++ row :: after) :
    (plan.without row.rowIndex).rows.filter (·.isPending) = before ++ after := by
  have keys := rows.indexes
  rw [Keyed, List.map_append, List.map_cons, List.nodup_append] at keys
  obtain ⟨-, rest, apart⟩ := keys
  have left : before.filter (·.rowIndex ≠ row.rowIndex) = before := List.filter_eq_self.mpr fun other mem => by
    simpa using apart _ (List.mem_map_of_mem mem) _ (.head _)
  have right : after.filter (·.rowIndex ≠ row.rowIndex) = after := List.filter_eq_self.mpr fun other mem => by
    have other_ne : other.rowIndex ≠ row.rowIndex := fun same =>
      (List.nodup_cons.mp rest).1 (same ▸ List.mem_map_of_mem mem)
    simpa using other_ne
  rw [EmuImportPlan.without, List.filter_comm, split, List.filter_append, List.filter_cons_of_neg (by simp),
    left, right]

/-- What a round stores. -/
theorem Turn.stored (turn : Turn letters passwordHashes start before (row :: after) db)
    (valid : ValidUsers letters start.users) (rows : PendingRows (before ++ row :: after))
    (run : applyRound letters eventFails (localUserIndex letters (listAllUsers start.users)) passwordHashes row
      db = (.ok ⟨⟩, db')) (isPlan : db.plan = some plan) :
    ∃ applied : EmuImportPlanRowRecord, applied.rowIndex = row.rowIndex ∧
      db'.plan = some (plan.setRow applied) := by
  obtain ⟨applied, reached, isRun, rfl⟩ := applyRound_eq_ok run
  have ends : RowEnds letters eventFails _ row _ db _ := turn.round_ends valid rows
  rw [isRun] at ends
  cases ends with
  | refused isRow => exact ⟨applied, isRow, by rw [isPlan, Option.map_some]⟩
  | created isRow => exact ⟨applied, isRow, by simp only [isPlan, Option.map_some]⟩
  | updated isRow => exact ⟨applied, isRow, by simp only [isPlan, Option.map_some]⟩

/-- What holds of a stored row still holds after rounds that keep it. -/
theorem Turn.keeps_stored {P : EmuImportPlanRowRecord → Prop} (valid : ValidUsers letters start.users)
    {between : List EmuImportPlanRowRecord}
    (turn : Turn letters passwordHashes start before (between ++ after) db)
    (rows : PendingRows (before ++ (between ++ after)))
    (run : between.forM (applyRound letters eventFails (localUserIndex letters (listAllUsers start.users))
      passwordHashes) db = (.ok ⟨⟩, db'))
    (keeps : ∀ row ∈ between, ∀ applied stored : EmuImportPlanRowRecord, applied.rowIndex = row.rowIndex →
      P stored → P (setColumns applied stored))
    (isPlan : db.plan = some plan) (isStored : ∃ stored ∈ plan.rows, P stored) :
    ∃ plan', db'.plan = some plan' ∧ ∃ stored ∈ plan'.rows, P stored := by
  induction between generalizing before db plan with
  | nil =>
      obtain ⟨-, rfl⟩ := Prod.mk.inj run
      exact ⟨plan, isPlan, isStored⟩
  | cons row between ih =>
      obtain ⟨⟨⟩, next, first, rest⟩ := Tx.bind_eq_ok.mp run
      rw [List.cons_append] at turn rows
      obtain ⟨applied, isRow, isNext⟩ := turn.stored valid rows first isPlan
      have nextTurn := turn.round valid rows first
      rw [← List.singleton_append, ← List.append_assoc] at rows
      obtain ⟨stored, mem, holds⟩ := isStored
      exact ih nextTurn rows rest (fun other inBetween => keeps other (.tail _ inBetween)) isNext
        ⟨_, List.mem_map_of_mem mem, keeps row (.head _) applied stored isRow holds⟩

/-- The call returns. A row that cannot be applied is stored as failed or as a conflict, and a plan without it
comes to the same for all other rows. -/
def IsolatesRows (letters : LowerCase) (eventFails : Name → Bool) (passwordHashes : Nat → Option PasswordHash)
    (start : Db) (plan : EmuImportPlan) : Prop :=
  ∃ plan' db', applyEmuImportPlan letters eventFails passwordHashes start = (.ok plan', db') ∧
    ∀ before row after turn, plan.rows.filter (·.isPending) = before ++ row :: after →
      before.forM (applyRound letters eventFails (localUserIndex letters (listAllUsers start.users))
        passwordHashes) start = (.ok ⟨⟩, turn) →
      CannotBeApplied letters start row turn →
        (∃ stored ∈ plan'.rows, stored.rowIndex = row.rowIndex ∧
          (stored.status = .conflict ∨ stored.status = .failed)) ∧
        applyEmuImportPlan letters eventFails passwordHashes (start.without row.rowIndex) =
          (.ok (plan'.without row.rowIndex), db'.without row.rowIndex)

/-- A call returns where the rounds do. -/
theorem applyEmuImportPlan_eq_ok {plan' : EmuImportPlan} (isPlan : start.plan = some plan) :
    applyEmuImportPlan letters eventFails passwordHashes start = (.ok plan', db') ↔
      ∃ reached, (plan.rows.filter (·.isPending)).forM (applyRound letters eventFails
          (localUserIndex letters (listAllUsers start.users)) passwordHashes) start = (.ok ⟨⟩, reached) ∧
        reached.plan.map (fun plan => { plan with status := .applied }) = some plan' ∧
        db' = { reached with plan := some plan' } := by
  constructor
  · intro run
    obtain ⟨⟨⟩, applied, transaction, required⟩ := Tx.bind_eq_ok.mp run
    have body := Tx.transaction_eq_ok.mp transaction
    rw [applyPendingRows_run isPlan] at body
    obtain ⟨⟨⟩, reached, rounds, marked⟩ := Tx.bind_eq_ok.mp body
    refine ⟨reached, rounds, ?_⟩
    have isApplied := (Prod.mk.inj marked).2
    subst isApplied
    cases isReached : reached.plan with
    | none => simp [requireEmuImportPlan, Tx.bind_run, isReached] at required
    | some reachedPlan =>
        simp only [requireEmuImportPlan, Tx.bind_run, Tx.read_run, isReached, Option.map_some, Tx.pure_run,
          Prod.mk.injEq, Except.ok.injEq] at required
        obtain ⟨rfl, rfl⟩ := required
        exact ⟨rfl, rfl⟩
  · rintro ⟨reached, rounds, isPlan', rfl⟩
    have body : applyPendingRows letters eventFails passwordHashes start =
        (.ok (), { reached with plan := some plan' }) := by
      rw [applyPendingRows_run isPlan, Tx.bind_ok rounds, ← isPlan']
      rfl
    exact (Tx.bind_ok (Tx.transaction_eq_ok.mpr body)).trans rfl

/-- The rounds of the other rows, without a row that is refused. -/
theorem Turn.rounds_without (turn : Turn letters passwordHashes start before (row :: after) db)
    (valid : ValidUsers letters start.users) (rows : PendingRows (before ++ row :: after))
    (cannot : CannotBeApplied letters start row db)
    (early : before.forM (applyRound letters eventFails (localUserIndex letters (listAllUsers start.users))
      passwordHashes) start = (.ok ⟨⟩, db))
    (late : (row :: after).forM (applyRound letters eventFails (localUserIndex letters (listAllUsers start.users))
      passwordHashes) db = (.ok ⟨⟩, db')) :
    (before ++ after).forM (applyRound letters eventFails (localUserIndex letters (listAllUsers start.users))
      passwordHashes) (start.without row.rowIndex) = (.ok ⟨⟩, db'.without row.rowIndex) := by
  obtain ⟨⟨⟩, next, round, rest⟩ := Tx.bind_eq_ok.mp late
  obtain ⟨applied, isRow, _, rfl⟩ := turn.refused valid rows cannot round
  have unchanged : ({ db with plan := db.plan.map (·.setRow applied) } : Db).without row.rowIndex =
      db.without row.rowIndex := by
    simp only [Db.without, Option.map_map]
    congr 2
    funext plan
    exact setRow_without applied isRow plan
  have commutes : ∀ rows : List EmuImportPlanRowRecord, Tx.Commutes (Db.without row.rowIndex)
      (rows.forM (applyRound letters eventFails (localUserIndex letters (listAllUsers start.users))
        passwordHashes)) := fun rows => .forM fun other _ => applyRound_commutes _ passwordHashes other
  refine Tx.forM_append_eq_ok.mpr ⟨db.without row.rowIndex, ?_, ?_⟩
  · rw [commutes before start, early]
  · rw [← unchanged, commutes after, rest]

/-- What has been stored of a refused row when all rounds are done. -/
theorem Turn.stored_refused (turn : Turn letters passwordHashes start before (row :: after) db)
    (valid : ValidUsers letters start.users) (rows : PendingRows (before ++ row :: after))
    (cannot : CannotBeApplied letters start row db) (isPlan : db.plan = some plan)
    (inPlan : ∃ stored ∈ plan.rows, stored.rowIndex = row.rowIndex)
    (late : (row :: after).forM (applyRound letters eventFails (localUserIndex letters (listAllUsers start.users))
      passwordHashes) db = (.ok ⟨⟩, db')) :
    ∃ plan', db'.plan = some plan' ∧ ∃ stored ∈ plan'.rows, stored.rowIndex = row.rowIndex ∧
      (stored.status = .conflict ∨ stored.status = .failed) := by
  obtain ⟨⟨⟩, next, round, rest⟩ := Tx.bind_eq_ok.mp late
  have nextTurn := turn.round valid rows round
  have apart := rows.apart turn.between.rest
  obtain ⟨applied, isRow, status, rfl⟩ := turn.refused valid rows cannot round
  obtain ⟨stored, mem, here⟩ := inPlan
  have isNext : db.plan.map (·.setRow applied) = some (plan.setRow applied) := by rw [isPlan, Option.map_some]
  rw [← List.singleton_append, ← List.append_assoc] at rows
  rw [← List.append_nil after] at nextTurn rows
  refine nextTurn.keeps_stored valid rows rest (fun other inAfter applied' stored' isOther holds => ?_)
    isNext ⟨setColumns applied stored, List.mem_map_of_mem mem, ?_, ?_⟩
  · rw [setColumns_of_ne]
    · exact holds
    · rw [holds.1, isOther]
      exact (apart other inAfter).1
  · rw [setColumns_rowIndex, here]
  · rw [setColumns_status (here.trans isRow.symm)]
    exact status

/-- Rows are isolated where nothing throws, and only there. -/
theorem isolatesRows_iff (valid : ValidDb letters start) (isPlan : start.plan = some plan) :
    IsolatesRows letters eventFails passwordHashes start plan ↔
      NothingThrows letters eventFails passwordHashes start (plan.rows.filter (·.isPending)) := by
  rw [← rounds_return_iff valid isPlan]
  constructor
  · rintro ⟨plan', db', run, -⟩
    obtain ⟨reached, rounds, -⟩ := (applyEmuImportPlan_eq_ok isPlan).mp run
    exact ⟨reached, rounds⟩
  · rintro ⟨reached, rounds⟩
    have rows := valid.pendingRows isPlan
    have first : Turn letters passwordHashes start [] (plan.rows.filter (·.isPending)) start :=
      .first (valid.betweenRounds isPlan)
    have last : Turn letters passwordHashes start (plan.rows.filter (·.isPending)) [] reached :=
      Turn.rounds valid.users (by rwa [List.append_nil]) (by rwa [List.append_nil]) rounds
    obtain ⟨plan', isReached, -, -⟩ := last.between.plan
    refine ⟨{ plan' with status := .applied }, _,
      (applyEmuImportPlan_eq_ok isPlan).mpr ⟨reached, rounds, by rw [isReached, Option.map_some], rfl⟩, ?_⟩
    intro before row after turnDb split early cannot
    have inPlan : row ∈ plan.rows :=
      List.mem_of_mem_filter (p := (·.isPending)) (split ▸ List.mem_append_right before (.head after))
    rw [split] at rounds rows first
    obtain ⟨_, early', late⟩ := Tx.forM_append_eq_ok.mp rounds
    obtain rfl := (Prod.mk.inj (early.symm.trans early')).2
    have turn : Turn letters passwordHashes start before (row :: after) turnDb :=
      Turn.rounds valid.users first rows early
    constructor
    · obtain ⟨turnPlan, isTurnPlan, hasRow⟩ := first.keeps_stored (P := fun stored => stored.rowIndex = row.rowIndex)
        valid.users rows early (fun _ _ applied stored _ here => (setColumns_rowIndex applied stored).trans here)
        isPlan ⟨row, inPlan, rfl⟩
      obtain ⟨_, isStored, recorded⟩ := turn.stored_refused valid.users rows cannot isTurnPlan hasRow late
      obtain rfl := Option.some.inj (isReached.symm.trans isStored)
      exact recorded
    · have isPlan' : (start.without row.rowIndex).plan = some (plan.without row.rowIndex) := by
        rw [Db.without, isPlan, Option.map_some]
      refine (applyEmuImportPlan_eq_ok isPlan').mpr ⟨reached.without row.rowIndex, ?_, ?_, rfl⟩
      · rw [pendingRows_without rows split]
        exact turn.rounds_without valid.users rows cannot early late
      · rw [Db.without, isReached]
        rfl

end Turns

/-! ## The plans there are -/

/-- The database when a plan has been stored, whatever the users, the pool and the limit are then. -/
def withPlan (users : List SsoUserRecord) (poolManaged : List Name) (maxSsoUsers : Option Nat)
    (plan : EmuImportPlan) : Db :=
  { users, poolManaged, maxSsoUsers, plan := some plan, applied := [] }

section Plans

variable {letters : LowerCase} {eventFails : Name → Bool} {passwordHashes : Nat → Option PasswordHash}
variable {shortcode : List Char} {copilotSeats : List Char → Option CopilotSeatSnapshot}
variable {emailDomain : List Char} {planned users : List SsoUserRecord} {scimUsers : List ScimUserResource}
variable {poolManaged : List Name} {maxSsoUsers : Option Nat}

/-- Applying a plan isolates its bad rows if and only if no row that is up to date updates a user of the pool,
and whoever is created can be logged. -/
theorem applyEmuImportPlan_isolates_iff (valid : ValidUsers letters users) (plan : EmuImportPlan)
    (isPlan : plan = storedPlan (buildEmuImportPlan letters shortcode copilotSeats emailDomain planned scimUsers)) :
    IsolatesRows letters eventFails passwordHashes (withPlan users poolManaged maxSsoUsers plan) plan ↔
      NothingThrows letters eventFails passwordHashes (withPlan users poolManaged maxSsoUsers plan)
        (plan.rows.filter (·.isPending)) := by
  refine isolatesRows_iff ⟨valid, List.nodup_nil, ?_⟩ rfl
  rintro _ ⟨⟩
  subst isPlan
  exact ⟨storedPlan_rows, fun _ _ _ => List.not_mem_nil⟩

end Plans

/-- The one local user, whom the pool manages. -/
def bob : SsoUserRecord := newUser ['b', 'o', 'b'] ⟨"hash", "salt"⟩ ['b', '@', 'x']

/-- GitHub has two users, of whom one is not known here. -/
def twoScimUsers : List ScimUserResource :=
  [{ id := some "42", externalId := none, userName := ['a', 'd', 'a'], emails := [], active := some true,
     githubLogin := none },
   { id := some "43", externalId := none, userName := ['b', 'o', 'b'], emails := [], active := some true,
     githubLogin := none }]

/-- A row that creates `ada`, and a row that updates `bob`. -/
def twoRowPlan : EmuImportPlan :=
  storedPlan (buildEmuImportPlan asciiLetters [] (fun _ => none) ['x', '.', 'y'] [bob] twoScimUsers)

theorem bob_valid : ValidUsers asciiLetters [bob] where
  distinct := List.nodup_singleton _
  ascii user mem _ := by
    rw [List.mem_singleton.mp mem]
    decide

/-- The row of the pool's user rolls the whole plan back. -/
theorem pool_row_throws : ¬ IsolatesRows asciiLetters (fun _ => false) (fun _ => some ⟨"hash", "salt"⟩)
    (withPlan [bob] [['b', 'o', 'b']] none twoRowPlan) twoRowPlan := by
  rintro ⟨plan', db', run, -⟩
  have threw : (applyEmuImportPlan asciiLetters (fun _ => false) (fun _ => some ⟨"hash", "salt"⟩)
      (withPlan [bob] [['b', 'o', 'b']] none twoRowPlan)).1.isOk = false := by decide
  rw [run] at threw
  cases threw

theorem applyEmuImportPlan_isolates_iff_twoRowPlan :
    IsolatesRows asciiLetters (fun _ => false) (fun _ => none) (withPlan [bob] [] none twoRowPlan) twoRowPlan ↔
      NothingThrows asciiLetters (fun _ => false) (fun _ => none) (withPlan [bob] [] none twoRowPlan)
        (twoRowPlan.rows.filter (·.isPending)) :=
  applyEmuImportPlan_isolates_iff bob_valid twoRowPlan rfl

end GhcpConsole.EmuImport
