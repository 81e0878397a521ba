import GhcpConsole.EmuImport.Apply

/-!
# One row of a plan

What the round of one row does, told from the users as the index was made of them and from those that
there are when its turn comes. Of the user that a pending row names these are the same: no other row of
the plan names it.
-/

namespace GhcpConsole.EmuImport

open Sso

/-- What holds of the users of an enterprise: their names are different also in lower case, since every
name is looked up before a user is created, and none has a letter that is no ASCII character but becomes
one in lower case. Names come from `sanitizeSsoUser`, but for a prefix out of the registry. -/
structure ValidUsers (letters : LowerCase) (users : List SsoUserRecord) : Prop where
  distinct : Keyed (fun user => sqlLower user.ssoUser) users
  ascii : ∀ user ∈ users, (∀ c ∈ letters.toLowerCase user.ssoUser, c.toNat < 128) →
    ∀ c ∈ user.ssoUser, c.toNat < 128

section Lookup

variable {users : List SsoUserRecord} {name : Name} {user : SsoUserRecord} {letters : LowerCase}

theorem isNamed_of_getUser (found : getUser name users = some user) : user.isNamed name = true := by
  unfold getUser at found
  simpa using List.find?_some found

theorem getUser_eq_some (valid : ValidUsers letters users) :
    getUser name users = some user ↔ user ∈ users ∧ user.isNamed name = true := by
  constructor
  · exact fun found => ⟨List.mem_of_find?_eq_some found, isNamed_of_getUser found⟩
  · rintro ⟨mem, isNamed⟩
    cases found : getUser name users with
    | none => exact absurd isNamed (by simpa using List.find?_eq_none.mp found user mem)
    | some other =>
        have otherNamed : other.isNamed name = true := isNamed_of_getUser found
        simp only [SsoUserRecord.isNamed, decide_eq_true_eq] at isNamed otherNamed
        rw [valid.distinct.eq (List.mem_of_find?_eq_some found) mem (otherNamed.trans isNamed.symm)]

theorem getUser_eq_none : getUser name users = none ↔ ∀ user ∈ users, user.isNamed name = false := by
  rw [getUser, List.find?_eq_none]
  simp

theorem mem_listAllUsers : user ∈ listAllUsers users ↔ user ∈ users := List.mem_insertionSort _

theorem sqlLower_of_names (names : ∀ c ∈ name, isNameChar c = true) : sqlLower name = name := by
  calc name.map Char.toLower = name.map id :=
        List.map_congr_left fun c mem => toLower_of_isNameChar (names c mem)
    _ = name := List.map_id name

theorem ascii_of_toLower {c : Char} (h : c.toLower.toNat < 128) : c.toNat < 128 := by
  delta Char.toLower at h
  split at h
  · rename_i upper
    have high : c.toNat ≤ 90 := UInt32.le_iff_toNat_le.mp upper.2
    omega
  · exact h

/-- `toLowerCase` and `lower()` agree on which user has a name. -/
theorem toLowerCase_eq_iff (valid : ValidUsers letters users) (mem : user ∈ users)
    (names : ∀ c ∈ name, isNameChar c = true) :
    letters.toLowerCase user.ssoUser = letters.toLowerCase name ↔ user.isNamed name = true := by
  have ascii : ∀ c ∈ name, c.toNat < 128 := fun c mem => ascii_of_isNameChar (names c mem)
  have lowered : letters.toLowerCase name = name :=
    (letters.ascii name ascii).trans (sqlLower_of_names names)
  rw [lowered, SsoUserRecord.isNamed, decide_eq_true_eq, sqlLower_of_names names]
  constructor
  · intro same
    have userAscii := valid.ascii user mem (same ▸ ascii)
    rw [← same]
    exact (letters.ascii _ userAscii).symm
  · intro same
    refine (letters.ascii _ fun c inName => ?_).trans same
    exact ascii_of_toLower (ascii _ (same ▸ List.mem_map_of_mem inName))

/-- The index finds the user that the database finds. -/
theorem bySsoUser_eq (valid : ValidUsers letters users) (names : ∀ c ∈ name, isNameChar c = true) :
    (localUserIndex letters (listAllUsers users)).bySsoUser (letters.toLowerCase name) =
      getUser name users := by
  have found : ∀ user ∈ users, letters.toLowerCase user.ssoUser = letters.toLowerCase name ↔
      user.isNamed name = true := fun user mem => toLowerCase_eq_iff valid mem names
  cases byName : getUser name users with
  | none =>
      refine List.find?_eq_none.mpr fun user mem => ?_
      have inUsers := mem_listAllUsers.mp (List.mem_reverse.mp mem)
      have other := getUser_eq_none.mp byName user inUsers
      simpa [found user inUsers] using other
  | some user =>
      obtain ⟨mem, isNamed⟩ := (getUser_eq_some valid).mp byName
      cases byIndex : (localUserIndex letters (listAllUsers users)).bySsoUser (letters.toLowerCase name) with
      | none =>
          have other := List.find?_eq_none.mp byIndex user (List.mem_reverse.mpr (mem_listAllUsers.mpr mem))
          exact absurd ((found user mem).mpr isNamed) (by simpa using other)
      | some other =>
          have inUsers := mem_listAllUsers.mp (List.mem_reverse.mp (List.mem_of_find?_eq_some byIndex))
          have isNamed' := (found other inUsers).mp (by simpa using List.find?_some byIndex)
          have same := (getUser_eq_some valid).mpr ⟨inUsers, isNamed'⟩
          rw [← same, byName]

end Lookup

section Rows

variable {letters : LowerCase} {eventFails : Name → Bool} {index : LocalUserIndex}
variable {row : EmuImportPlanRowRecord} {passwordHash : Option PasswordHash} {db db' : Db}

/-- A row that no stale conflict stops. -/
structure Unconflicted (letters : LowerCase) (index : LocalUserIndex) (row : EmuImportPlanRowRecord)
    (complete : CompleteRow) (seat : CopilotSeatSnapshot) : Prop where
  isComplete : completeRow row = some complete
  isSeat : importSeatSnapshot row = pure seat
  bound : ∀ bound, index.byScimId complete.ghScimId = some bound →
    letters.toLowerCase bound.ssoUser = letters.toLowerCase row.ssoUser
  existing : boundToOther (index.bySsoUser (letters.toLowerCase row.ssoUser)) complete.ghScimId = none
  create : row.action = some .create → index.bySsoUser (letters.toLowerCase row.ssoUser) = none
  update : row.action = some .update → ∃ user, index.bySsoUser (letters.toLowerCase row.ssoUser) = some user

theorem completeRow_ghScimId {complete : CompleteRow} (isComplete : completeRow row = some complete) :
    row.ghScimId = some complete.ghScimId ∧ complete.ghScimId ≠ "" ∧
      row.copilotSeatStatus = some complete.copilotSeatStatus := by
  unfold completeRow at isComplete
  split at isComplete
  · rename_i isId _ _ _ isSeat
    split at isComplete
    · rename_i nonempty
      cases isComplete
      simp only [Bool.and_eq_true, decide_eq_true_eq] at nonempty
      exact ⟨isId, nonempty.1.1, isSeat⟩
    · cases isComplete
  · cases isComplete

/-- The seat of a pending row is one that can be read back, unless its date is not a date. -/
theorem importSeatSnapshot_eq (planned : PendingRow row)
    (date : row.copilotSeatStatus = some .pendingCancellation →
      row.copilotSeatPendingCancellationDate.any isCancellationDate = true) :
    ∃ seat, importSeatSnapshot row = pure seat := by
  obtain ⟨seat, isStatus, isDate⟩ := planned.seat
  refine ⟨seat, ?_⟩
  cases seat with
  | assigned => rw [importSeatSnapshot, isStatus, isDate]; rfl
  | unassigned => rw [importSeatSnapshot, isStatus, isDate]; rfl
  | pendingCancellation day =>
      have isDay : isCancellationDate day = true := by
        have any := date isStatus
        rw [isDate] at any
        simpa [CopilotSeatSnapshot.pendingCancellationDate] using any
      rw [importSeatSnapshot, isStatus, isDate]
      simp [CopilotSeatSnapshot.status, CopilotSeatSnapshot.pendingCancellationDate, isDay]

theorem unconflicted (planned : PendingRow row) (current : staleConflictForRow letters row index = none) :
    ∃ complete seat, Unconflicted letters index row complete seat := by
  unfold staleConflictForRow at current
  split at current
  · cases current
  · rename_i complete isComplete
    split at current
    · cases current
    · rename_i dated
      dsimp only at current
      split at current
      · cases current
      · cases current
      · rename_i unbound other
        split at current
        · cases current
        · rename_i noCreate
          split at current
          · cases current
          · rename_i noUpdate
            have isStatus := (completeRow_ghScimId isComplete).2.2
            obtain ⟨seat, isSeat⟩ : ∃ seat, importSeatSnapshot row = pure seat := by
              refine importSeatSnapshot_eq planned fun pending => ?_
              have same : complete.copilotSeatStatus = .pendingCancellation :=
                Option.some.inj (isStatus.symm.trans pending)
              simpa [same] using dated
            refine ⟨complete, seat, isComplete, isSeat, fun bound isBound => ?_, other, fun isCreate => ?_,
              fun isUpdate => ?_⟩
            · rw [isBound, Option.filter_eq_none_iff] at unbound
              simpa using unbound bound rfl
            · simpa [isCreate] using noCreate
            · exact Option.ne_none_iff_exists'.mp (by simpa [isUpdate] using noUpdate)

/-- The change of the user that a row updates. -/
def updateOf (complete : CompleteRow) (seat : CopilotSeatSnapshot) (current user : SsoUserRecord) :
    SsoUserRecord :=
  setSeat seat (setEmu complete.ghLogin complete.ghScimId complete.emuStatus
    (setEmail complete.email current user))

/-- The user that a row creates. -/
def createdUser (row : EmuImportPlanRowRecord) (complete : CompleteRow) (seat : CopilotSeatSnapshot)
    (password : PasswordHash) : SsoUserRecord :=
  setSeat seat (setEmu complete.ghLogin complete.ghScimId complete.emuStatus
    (newUser row.ssoUser password complete.email))

theorem setNamed_append {name : Name} {set : SsoUserRecord → SsoUserRecord} {users : List SsoUserRecord}
    {user : SsoUserRecord} (free : getUser name users = none) (isNamed : user.isNamed name = true) :
    setNamed name set (users ++ [user]) = users ++ [set user] := by
  have others : setNamed name set users = users := by
    rw [setNamed]
    calc users.map _ = users.map id := List.map_congr_left fun other mem => by
          simp [getUser_eq_none.mp free other mem]
      _ = users := List.map_id users
  rw [setNamed, List.map_append, ← setNamed, others]
  simp [isNamed]

theorem getUser_append {name : Name} {users : List SsoUserRecord} {user : SsoUserRecord}
    (free : getUser name users = none) (isNamed : user.isNamed name = true) :
    getUser name (users ++ [user]) = some user := by
  rw [getUser, List.find?_append, ← getUser, free, Option.none_or,
    List.find?_cons_of_pos (by simp [isNamed])]

/-- How the round of one row ends, and when: `db` is what it finds, the pair is what it leaves. -/
inductive RowEnds (letters : LowerCase) (eventFails : Name → Bool) (index : LocalUserIndex)
    (row : EmuImportPlanRowRecord) (passwordHash : Option PasswordHash) (db : Db) :
    Except ApplyError EmuImportPlanRowRecord × Db → Prop where
  | refused {applied : EmuImportPlanRowRecord} (isRow : applied.rowIndex = row.rowIndex)
      (status : applied.status = .conflict ∨ applied.status = .failed)
      (why : staleConflictForRow letters row index ≠ none ∨
        row.action = some .create ∧ (passwordHash = none ∨ limitOf db ≠ none)) :
      RowEnds letters eventFails index row passwordHash db (.ok applied, db)
  | created {applied : EmuImportPlanRowRecord} {complete : CompleteRow} {seat : CopilotSeatSnapshot}
      {hash : PasswordHash} (isRow : applied.rowIndex = row.rowIndex) (status : applied.status = .created)
      (current : staleConflictForRow letters row index = none)
      (row_ok : Unconflicted letters index row complete seat) (create : row.action = some .create)
      (hashed : passwordHash = some hash) (room : limitOf db = none) (logged : eventFails row.ssoUser = false) :
      RowEnds letters eventFails index row passwordHash db (.ok applied, { db with
        users := db.users ++ [createdUser row complete seat hash], applied := db.applied ++ [row.rowIndex] })
  | updated {applied : EmuImportPlanRowRecord} {complete : CompleteRow} {seat : CopilotSeatSnapshot}
      {user : SsoUserRecord} (isRow : applied.rowIndex = row.rowIndex) (status : applied.status = .updated)
      (current : staleConflictForRow letters row index = none)
      (row_ok : Unconflicted letters index row complete seat) (update : row.action = some .update)
      (found : getUser row.ssoUser db.users = some user)
      (unmanaged : isPoolManagedSsoUser user.ssoUser db = false) :
      RowEnds letters eventFails index row passwordHash db (.ok applied, { db with
        users := setNamed row.ssoUser (updateOf complete seat user) db.users
        applied := db.applied ++ [row.rowIndex] })
  | unlogged {error : ApplyError} {reached : Db} (current : staleConflictForRow letters row index = none)
      (create : row.action = some .create) (hashed : passwordHash ≠ none) (room : limitOf db = none)
      (unlogged : eventFails row.ssoUser = true) :
      RowEnds letters eventFails index row passwordHash db (.error error, reached)
  | managed {user : SsoUserRecord} (current : staleConflictForRow letters row index = none)
      (update : row.action = some .update) (found : getUser row.ssoUser db.users = some user)
      (managed : isPoolManagedSsoUser user.ssoUser db = true) :
      RowEnds letters eventFails index row passwordHash db (.error .poolMemberManaged, db)

variable {complete : CompleteRow} {seat : CopilotSeatSnapshot}

theorem createImportedUser_full {hash : PasswordHash} {limit : Nat} (full : limitOf db = some limit) :
    createImportedUser eventFails row complete (some hash) db =
      (.error (.limitReached db.users.length limit), db) := by
  rw [createImportedUser]
  exact Tx.bind_error (createUser_full full)

/-- The two updates of a user that has just been added. -/
theorem updateEmu_append {name : Name} {user : SsoUserRecord} (free : getUser name db.users = none)
    (isNamed : user.isNamed name = true) (ghLogin : List Char) (ghScimId : String) (emuStatus : EmuStatus) :
    updateEmu name ghLogin ghScimId emuStatus { db with users := db.users ++ [user] } =
      (.ok (setEmu ghLogin ghScimId emuStatus user),
        { db with users := db.users ++ [setEmu ghLogin ghScimId emuStatus user] }) := by
  rw [updateEmu_run (getUser_append free isNamed)]
  simp only [setNamed_append free isNamed]

theorem updateCopilotSeatFromGitHub_append {name : Name} {user : SsoUserRecord}
    (free : getUser name db.users = none) (isNamed : user.isNamed name = true) (seat : CopilotSeatSnapshot) :
    updateCopilotSeatFromGitHub name seat { db with users := db.users ++ [user] } =
      (.ok (setSeat seat user), { db with users := db.users ++ [setSeat seat user] }) := by
  rw [updateCopilotSeatFromGitHub_run (getUser_append free isNamed)]
  simp only [setNamed_append free isNamed]

/-- What creating a user comes to, up to the log of events. -/
theorem createImportedUser_run {hash : PasswordHash} (isSeat : importSeatSnapshot row = pure seat)
    (room : limitOf db = none) (free : getUser row.ssoUser db.users = none) :
    createImportedUser eventFails row complete (some hash) db =
      (do
        appendUserEvent eventFails (createdUser row complete seat hash)
        noteApplied row
        pure (appliedRow row (createdUser row complete seat hash) .created
          s!"Created SSO user using the configured default password policy. Direct Copilot seat: {importSeatDescription row}.") :
        Program EmuImportPlanRowRecord)
        { db with users := db.users ++ [createdUser row complete seat hash] } := by
  have isNamed : ∀ user : SsoUserRecord, user.ssoUser = row.ssoUser → user.isNamed row.ssoUser = true := by
    rintro user same
    rw [SsoUserRecord.isNamed, same]
    exact decide_eq_true rfl
  have created : createUser (newUser row.ssoUser hash complete.email) db = _ := createUser_run room free
  have emu := updateEmu_append free (isNamed (newUser row.ssoUser hash complete.email) rfl) complete.ghLogin
    complete.ghScimId complete.emuStatus
  have seated := updateCopilotSeatFromGitHub_append free (isNamed (setEmu complete.ghLogin complete.ghScimId
    complete.emuStatus (newUser row.ssoUser hash complete.email)) rfl) seat
  rw [createImportedUser]
  refine (Tx.bind_ok created).trans ((Tx.bind_ok emu).trans ?_)
  rw [isSeat]
  exact (Tx.bind_ok (Tx.pure_run seat _)).trans (Tx.bind_ok seated)

theorem createImportedUser_unlogged {hash : PasswordHash} (isSeat : importSeatSnapshot row = pure seat)
    (room : limitOf db = none) (free : getUser row.ssoUser db.users = none)
    (unlogged : eventFails row.ssoUser = true) :
    createImportedUser eventFails row complete (some hash) db =
      (.error (.other "The event log cannot be written."),
        { db with users := db.users ++ [createdUser row complete seat hash] }) := by
  refine (createImportedUser_run isSeat room free).trans (Tx.bind_error ?_)
  rw [appendUserEvent, if_pos (show eventFails (createdUser row complete seat hash).ssoUser = true from unlogged)]
  rfl

theorem createImportedUser_logged {hash : PasswordHash} (isSeat : importSeatSnapshot row = pure seat)
    (room : limitOf db = none) (free : getUser row.ssoUser db.users = none)
    (logged : eventFails row.ssoUser = false) :
    createImportedUser eventFails row complete (some hash) db =
      (.ok (appliedRow row (createdUser row complete seat hash) .created
          s!"Created SSO user using the configured default password policy. Direct Copilot seat: {importSeatDescription row}."),
        { db with
          users := db.users ++ [createdUser row complete seat hash]
          applied := db.applied ++ [row.rowIndex] }) := by
  have written : appendUserEvent eventFails (createdUser row complete seat hash) = pure () := by
    rw [appendUserEvent, show eventFails (createdUser row complete seat hash).ssoUser = false from logged]
    rfl
  rw [createImportedUser_run isSeat room free, written]
  rfl

/-- The same two after an update of the user by the name. -/
theorem updateEmu_setNamed {name : Name} {user : SsoUserRecord} {set : SsoUserRecord → SsoUserRecord}
    (keeps : ∀ user, (set user).ssoUser = user.ssoUser) (found : getUser name db.users = some user)
    (ghLogin : List Char) (ghScimId : String) (emuStatus : EmuStatus) :
    updateEmu name ghLogin ghScimId emuStatus { db with users := setNamed name set db.users } =
      (.ok (setEmu ghLogin ghScimId emuStatus (set user)), { db with
        users := setNamed name (fun user => setEmu ghLogin ghScimId emuStatus (set user)) db.users }) := by
  have after : getUser name (setNamed name set db.users) = some (set user) := by
    rw [getUser_setNamed set keeps, found, Option.map_some]
  rw [updateEmu_run after]
  simp only [setNamed_setNamed keeps]

theorem updateCopilotSeatFromGitHub_setNamed {name : Name} {user : SsoUserRecord}
    {set : SsoUserRecord → SsoUserRecord} (keeps : ∀ user, (set user).ssoUser = user.ssoUser)
    (found : getUser name db.users = some user) (seat : CopilotSeatSnapshot) :
    updateCopilotSeatFromGitHub name seat { db with users := setNamed name set db.users } =
      (.ok (setSeat seat (set user)), { db with
        users := setNamed name (fun user => setSeat seat (set user)) db.users }) := by
  have after : getUser name (setNamed name set db.users) = some (set user) := by
    rw [getUser_setNamed set keeps, found, Option.map_some]
  rw [updateCopilotSeatFromGitHub_run after]
  simp only [setNamed_setNamed keeps]

theorem updateImportedUser_run {user : SsoUserRecord} (isSeat : importSeatSnapshot row = pure seat)
    (found : getUser row.ssoUser db.users = some user)
    (unmanaged : isPoolManagedSsoUser user.ssoUser db = false) :
    updateImportedUser row complete db =
      (.ok (appliedRow row (updateOf complete seat user user) .updated
          s!"Updated SSO user from GH SCIM. Direct Copilot seat: {importSeatDescription row}."),
        { db with
          users := setNamed row.ssoUser (updateOf complete seat user) db.users
          applied := db.applied ++ [row.rowIndex] }) := by
  have emailed := updateUser_run found unmanaged complete.email
  have emu := updateEmu_setNamed (fun _ => rfl : ∀ user', (setEmail complete.email user user').ssoUser = _)
    found complete.ghLogin complete.ghScimId complete.emuStatus
  have seated := updateCopilotSeatFromGitHub_setNamed (fun _ => rfl : ∀ user', (setEmu complete.ghLogin
    complete.ghScimId complete.emuStatus (setEmail complete.email user user')).ssoUser = _) found seat
  rw [updateImportedUser]
  refine (Tx.bind_ok emailed).trans ((Tx.bind_ok emu).trans ?_)
  rw [isSeat]
  exact (Tx.bind_ok (Tx.pure_run seat _)).trans (Tx.bind_ok seated)

theorem updateImportedUser_managed {user : SsoUserRecord} (found : getUser row.ssoUser db.users = some user)
    (managed : isPoolManagedSsoUser user.ssoUser db = true) :
    updateImportedUser row complete db = (.error .poolMemberManaged, db) :=
  Tx.bind_error (updateUser_managed found managed complete.email)

theorem applyEmuImportRow_create (create : row.status = .pendingCreate ∧ row.action = some .create)
    (isComplete : completeRow row = some complete) :
    applyEmuImportRow eventFails row passwordHash = createImportedUser eventFails row complete passwordHash := by
  rw [applyEmuImportRow, isComplete, create.1, create.2]
  rfl

theorem applyEmuImportRow_update (update : row.status = .pendingUpdate ∧ row.action = some .update)
    (isComplete : completeRow row = some complete) :
    applyEmuImportRow eventFails row passwordHash = updateImportedUser row complete := by
  rw [applyEmuImportRow, isComplete, update.1, update.2]
  rfl

theorem applyPendingRow_ok {applied : EmuImportPlanRowRecord}
    (h : applyStoredEmuImportRow letters eventFails row index passwordHash db = (.ok applied, db')) :
    applyPendingRow letters eventFails row index passwordHash db = (.ok applied, db') := by
  simp [applyPendingRow, Tx.bind_run, Tx.tryReturn, h]

theorem applyPendingRow_limit {count limit : Nat}
    (h : applyStoredEmuImportRow letters eventFails row index passwordHash db =
      (.error (.limitReached count limit), db')) :
    applyPendingRow letters eventFails row index passwordHash db =
      (.ok { row with action := none, status := .failed, detail := limitMessage (.limitReached count limit) },
        db') := by
  simp [applyPendingRow, Tx.bind_run, Tx.tryReturn, h, isLimitReached]

theorem applyPendingRow_error {error : ApplyError} (uncaught : isLimitReached error = false)
    (h : applyStoredEmuImportRow letters eventFails row index passwordHash db = (.error error, db')) :
    applyPendingRow letters eventFails row index passwordHash db = (.error error, db') := by
  simp [applyPendingRow, Tx.bind_run, Tx.tryReturn, h, uncaught]

variable (letters eventFails index row passwordHash db) in
/-- Where the index has of the row's name what the database has, each way a row ends. -/
theorem applyPendingRow_ends (planned : PendingRow row)
    (same : index.bySsoUser (letters.toLowerCase row.ssoUser) = getUser row.ssoUser db.users) :
    RowEnds letters eventFails index row passwordHash db
      (applyPendingRow letters eventFails row index passwordHash db) := by
  cases current : staleConflictForRow letters row index with
  | some conflict =>
      have h : applyStoredEmuImportRow letters eventFails row index passwordHash db =
          (.ok { row with action := none, status := .conflict, detail := conflict }, db) := by
        rw [applyStoredEmuImportRow, current]
        rfl
      rw [applyPendingRow_ok h]
      exact .refused rfl (.inl rfl) (.inl (by simp [current]))
  | none =>
      obtain ⟨complete, seat, row_ok⟩ := unconflicted planned current
      have stored : applyStoredEmuImportRow letters eventFails row index passwordHash =
          applyEmuImportRow eventFails row passwordHash := by
        rw [applyStoredEmuImportRow, current]
      rcases planned.action with create | update
      · rw [applyEmuImportRow_create create row_ok.isComplete] at stored
        have free : getUser row.ssoUser db.users = none := same ▸ row_ok.create create.2
        cases hashed : passwordHash with
        | none =>
            rw [hashed] at stored
            rw [applyPendingRow_ok (congrFun stored db)]
            exact .refused rfl (.inr rfl) (.inr ⟨create.2, .inl rfl⟩)
        | some hash =>
            rw [hashed] at stored
            cases room : limitOf db with
            | some limit =>
                rw [applyPendingRow_limit ((congrFun stored db).trans (createImportedUser_full room))]
                exact .refused rfl (.inr rfl) (.inr ⟨create.2, .inr (by simp [room])⟩)
            | none =>
                cases logged : eventFails row.ssoUser with
                | true =>
                    rw [applyPendingRow_error rfl ((congrFun stored db).trans
                      (createImportedUser_unlogged row_ok.isSeat room free logged))]
                    exact .unlogged current create.2 (by simp) room logged
                | false =>
                    rw [applyPendingRow_ok ((congrFun stored db).trans
                      (createImportedUser_logged row_ok.isSeat room free logged))]
                    exact .created rfl rfl current row_ok create.2 rfl room logged
      · rw [applyEmuImportRow_update update row_ok.isComplete] at stored
        obtain ⟨user, isUser⟩ := row_ok.update update.2
        have found : getUser row.ssoUser db.users = some user := same ▸ isUser
        cases managed : isPoolManagedSsoUser user.ssoUser db with
        | true =>
            rw [applyPendingRow_error rfl ((congrFun stored db).trans (updateImportedUser_managed found managed))]
            exact .managed current update.2 found managed
        | false =>
            rw [applyPendingRow_ok ((congrFun stored db).trans
              (updateImportedUser_run row_ok.isSeat found managed))]
            exact .updated rfl rfl current row_ok update.2 found managed

end Rows

end GhcpConsole.EmuImport
