import GhcpConsole.Lib.Table
import GhcpConsole.Lib.Tx
import GhcpConsole.Sso.EnsureUser

/-!
# The users of an enterprise

What the EMU import reads and writes of `usersRepo.ts`: the rows of `sso_users` of one enterprise, with
the markers of the users that the pool manages and the limit of users. A row's times are left out.
-/

namespace GhcpConsole.EmuImport

open Sso

inductive EmuStatus where
  | active | suspended | deleted | notSynced
  deriving DecidableEq, Repr

inductive CopilotSeatStatus where
  | unknown | assigned | pendingCancellation | unassigned | assignFailed | removeFailed
  deriving DecidableEq, Repr

inductive CopilotSeatSnapshot where
  | assigned
  | unassigned
  | pendingCancellation (date : String)
  deriving DecidableEq, Repr

def CopilotSeatSnapshot.status : CopilotSeatSnapshot → CopilotSeatStatus
  | .assigned => .assigned
  | .unassigned => .unassigned
  | .pendingCancellation _ => .pendingCancellation

def CopilotSeatSnapshot.pendingCancellationDate : CopilotSeatSnapshot → Option String
  | .pendingCancellation date => some date
  | _ => none

inductive CopilotSeatOperation where
  | assign | remove
  deriving DecidableEq, Repr

inductive Role where
  | user | admin
  deriving DecidableEq, Repr

structure PasswordHash where
  passwordHash : String
  salt : String
  deriving DecidableEq, Repr

structure SsoUserRecord where
  ssoUser : Name
  password : PasswordHash
  email : List Char
  role : Role
  ghLogin : Option (List Char)
  ghScimId : Option String
  emuStatus : EmuStatus
  copilotSeatStatus : CopilotSeatStatus
  copilotSeatPendingCancellationDate : Option String
  copilotSeatLastOperation : Option CopilotSeatOperation
  copilotSeatLastError : Option String
  deriving DecidableEq, Repr

inductive ImportEmuUserStatus where
  | pendingCreate | pendingUpdate | created | updated | skipped | conflict | failed
  deriving DecidableEq, Repr

inductive EmuImportAction where
  | create | update | skip
  deriving DecidableEq, Repr

structure EmuImportPlanRowRecord where
  rowIndex : Nat
  ssoUser : Name
  email : Option (List Char)
  ghLogin : Option (List Char)
  ghScimId : Option String
  emuStatus : Option EmuStatus
  copilotSeatStatus : Option CopilotSeatStatus
  copilotSeatPendingCancellationDate : Option String
  status : ImportEmuUserStatus
  detail : String
  action : Option EmuImportAction
  deriving DecidableEq, Repr

inductive ImportEmuPlanStatus where
  | planned | applied
  deriving DecidableEq, Repr

structure EmuImportPlan where
  status : ImportEmuPlanStatus
  rows : List EmuImportPlanRowRecord
  deriving DecidableEq, Repr

/-- What the database has of the enterprise, and one plan. -/
structure Db where
  users : List SsoUserRecord
  poolManaged : List Name
  maxSsoUsers : Option Nat
  plan : Option EmuImportPlan
  /-- Not in the database: the rows of the plan that have been applied to users, by their index. -/
  applied : List Nat
  deriving DecidableEq, Repr

inductive ApplyError where
  | planNotFound
  | limitReached (current limit : Nat)
  | poolMemberManaged
  | sqlite (message : String)
  | other (message : String)
  deriving DecidableEq, Repr

/-- `lower(sso_user) = lower(?)` -/
def SsoUserRecord.isNamed (user : SsoUserRecord) (ssoUser : Name) : Bool :=
  sqlLower user.ssoUser = sqlLower ssoUser

def getUser (ssoUser : Name) (users : List SsoUserRecord) : Option SsoUserRecord :=
  users.find? (·.isNamed ssoUser)

def isPoolManagedSsoUser (ssoUser : Name) (db : Db) : Bool :=
  db.poolManaged.any fun other => sqlLower other = sqlLower ssoUser

abbrev Program (α : Type) := Tx Db ApplyError α

/-- Rolling back puts all of the database back. -/
def rollback (old _ : Db) : Db := old

def assertBelowUserLimit : Program Unit := do
  match ← Tx.read (·.maxSsoUsers) with
  | none => pure ()
  | some limit =>
      let current ← Tx.read (·.users.length)
      if limit ≤ current then Tx.raise (.limitReached current limit) else pure ()

def newUser (ssoUser : Name) (password : PasswordHash) (email : List Char) : SsoUserRecord where
  ssoUser := ssoUser
  password := password
  email := email
  role := .user
  ghLogin := none
  ghScimId := none
  emuStatus := .notSynced
  copilotSeatStatus := .unknown
  copilotSeatPendingCancellationDate := none
  copilotSeatLastOperation := none
  copilotSeatLastError := none

def insertUser (user : SsoUserRecord) : Program Unit := do
  if ← Tx.read fun db => db.users.any (·.ssoUser = user.ssoUser) then
    Tx.raise (.sqlite "UNIQUE constraint failed: sso_users.enterprise_id, sso_users.sso_user")
  else Tx.write fun db => { db with users := db.users ++ [user] }

def createUser (user : SsoUserRecord) : Program SsoUserRecord :=
  Tx.transaction rollback do
    assertBelowUserLimit
    insertUser user
    match ← Tx.read fun db => getUser user.ssoUser db.users with
    | some created => pure created
    | none =>
        Tx.raise (.other s!"Failed to read newly created SSO user \"{String.ofList user.ssoUser}\".")

/-- `UPDATE sso_users SET ... WHERE lower(sso_user) = lower(?)` -/
def setNamed (ssoUser : Name) (set : SsoUserRecord → SsoUserRecord) (users : List SsoUserRecord) :
    List SsoUserRecord :=
  users.map fun user => if user.isNamed ssoUser then set user else user

def updateWhere (ssoUser : Name) (set : SsoUserRecord → SsoUserRecord) : Program Unit :=
  Tx.write fun db => { db with users := setNamed ssoUser set db.users }

def requireUser (ssoUser : Name) : Program SsoUserRecord := do
  match ← Tx.read fun db => getUser ssoUser db.users with
  | some user => pure user
  | none => Tx.raise (.other s!"Unknown SSO user \"{String.ofList ssoUser}\".")

/-- The `SET` of `updateUser` with a patch of the email. -/
def setEmail (email : List Char) (current user : SsoUserRecord) : SsoUserRecord :=
  { user with email, role := current.role, password := current.password }

def updateUser (ssoUser : Name) (email : List Char) : Program (Option SsoUserRecord) := do
  match ← Tx.read fun db => getUser ssoUser db.users with
  | none => pure none
  | some current =>
      if ← Tx.read (isPoolManagedSsoUser current.ssoUser) then Tx.raise .poolMemberManaged
      else
        updateWhere ssoUser (setEmail email current)
        Tx.read fun db => getUser ssoUser db.users

def setEmu (ghLogin : List Char) (ghScimId : String) (emuStatus : EmuStatus) (user : SsoUserRecord) :
    SsoUserRecord :=
  { user with ghLogin := some ghLogin, ghScimId := some ghScimId, emuStatus }

def updateEmu (ssoUser : Name) (ghLogin : List Char) (ghScimId : String) (emuStatus : EmuStatus) :
    Program SsoUserRecord := do
  updateWhere ssoUser (setEmu ghLogin ghScimId emuStatus)
  requireUser ssoUser

def setSeat (seat : CopilotSeatSnapshot) (user : SsoUserRecord) : SsoUserRecord :=
  { user with
    copilotSeatStatus := seat.status
    copilotSeatLastOperation := none
    copilotSeatLastError := none
    copilotSeatPendingCancellationDate := seat.pendingCancellationDate }

def updateCopilotSeatFromGitHub (ssoUser : Name) (seat : CopilotSeatSnapshot) : Program SsoUserRecord := do
  updateWhere ssoUser (setSeat seat)
  requireUser ssoUser

/-! ## Run equations -/

section Runs

variable {db : Db} {name other : Name} {user current : SsoUserRecord} {users : List SsoUserRecord}
variable {set set' : SsoUserRecord → SsoUserRecord}

theorem isNamed_self : user.isNamed user.ssoUser = true := by
  simp [SsoUserRecord.isNamed]

theorem isNamed_set (keeps : ∀ user, (set user).ssoUser = user.ssoUser) :
    (set user).isNamed name = user.isNamed name := by
  rw [SsoUserRecord.isNamed, SsoUserRecord.isNamed, keeps]

variable (set) in
theorem getUser_setNamed (keeps : ∀ user, (set user).ssoUser = user.ssoUser) :
    getUser name (setNamed name set users) = (getUser name users).map set := by
  induction users with
  | nil => rfl
  | cons user users ih =>
      rw [setNamed, List.map_cons, ← setNamed, getUser, getUser]
      cases isNamed : user.isNamed name with
      | true =>
          have isNamed' : (set user).isNamed name = true := (isNamed_set keeps).trans isNamed
          rw [if_pos rfl, List.find?_cons_of_pos (by simp [isNamed']),
            List.find?_cons_of_pos (by simp [isNamed]), Option.map_some]
      | false =>
          rw [if_neg Bool.false_ne_true, List.find?_cons_of_neg (by simp [isNamed]),
            List.find?_cons_of_neg (by simp [isNamed])]
          exact ih

theorem setNamed_setNamed (keeps : ∀ user, (set user).ssoUser = user.ssoUser) :
    setNamed name set' (setNamed name set users) = setNamed name (fun user => set' (set user)) users := by
  rw [setNamed, setNamed, setNamed, List.map_map]
  refine List.map_congr_left fun user _ => ?_
  cases isNamed : user.isNamed name with
  | true => simp [isNamed, isNamed_set keeps]
  | false => simp [isNamed]

theorem updateUser_run (found : getUser name db.users = some current)
    (unmanaged : isPoolManagedSsoUser current.ssoUser db = false) (email : List Char) :
    updateUser name email db = (.ok (some (setEmail email current current)),
      { db with users := setNamed name (setEmail email current) db.users }) := by
  have after : getUser name (setNamed name (setEmail email current) db.users) =
      some (setEmail email current current) := by
    rw [getUser_setNamed (setEmail email current) fun _ => rfl, found, Option.map_some]
  simp [updateUser, Tx.bind_run, found, unmanaged, updateWhere, after]

theorem updateUser_managed (found : getUser name db.users = some current)
    (managed : isPoolManagedSsoUser current.ssoUser db = true) (email : List Char) :
    updateUser name email db = (.error .poolMemberManaged, db) := by
  simp [updateUser, Tx.bind_run, found, managed]

theorem updateEmu_run (found : getUser name db.users = some current) (ghLogin : List Char)
    (ghScimId : String) (emuStatus : EmuStatus) :
    updateEmu name ghLogin ghScimId emuStatus db = (.ok (setEmu ghLogin ghScimId emuStatus current),
      { db with users := setNamed name (setEmu ghLogin ghScimId emuStatus) db.users }) := by
  have after : getUser name (setNamed name (setEmu ghLogin ghScimId emuStatus) db.users) =
      some (setEmu ghLogin ghScimId emuStatus current) := by
    rw [getUser_setNamed (setEmu ghLogin ghScimId emuStatus) fun _ => rfl, found, Option.map_some]
  simp [updateEmu, requireUser, Tx.bind_run, updateWhere, after]

theorem updateCopilotSeatFromGitHub_run (found : getUser name db.users = some current)
    (seat : CopilotSeatSnapshot) :
    updateCopilotSeatFromGitHub name seat db = (.ok (setSeat seat current),
      { db with users := setNamed name (setSeat seat) db.users }) := by
  have after : getUser name (setNamed name (setSeat seat) db.users) = some (setSeat seat current) := by
    rw [getUser_setNamed (setSeat seat) fun _ => rfl, found, Option.map_some]
  simp [updateCopilotSeatFromGitHub, requireUser, Tx.bind_run, updateWhere, after]

/-- The limit of users leaves no room. -/
def limitOf (db : Db) : Option Nat := db.maxSsoUsers.filter (· ≤ db.users.length)

theorem createUser_full {limit : Nat} (full : limitOf db = some limit) :
    createUser user db = (.error (.limitReached db.users.length limit), db) := by
  obtain ⟨isLimit, reached⟩ := Option.filter_eq_some_iff.mp full
  simp [createUser, Tx.transaction, assertBelowUserLimit, Tx.bind_run, isLimit, of_decide_eq_true reached,
    rollback]

theorem createUser_run (room : limitOf db = none) (free : getUser user.ssoUser db.users = none) :
    createUser user db = (.ok user, { db with users := db.users ++ [user] }) := by
  have below : assertBelowUserLimit db = (.ok (), db) := by
    cases isLimit : db.maxSsoUsers with
    | none => simp [assertBelowUserLimit, Tx.bind_run, isLimit]
    | some limit =>
        rw [limitOf, isLimit, Option.filter_some] at room
        split at room
        · cases room
        · rename_i reached
          have reached : ¬ limit ≤ db.users.length := by simpa using reached
          simp [assertBelowUserLimit, Tx.bind_run, isLimit, reached]
  have unused : (db.users.any fun other => decide (other.ssoUser = user.ssoUser)) = false := by
    refine List.any_eq_false.mpr fun other mem same => ?_
    have unnamed := List.find?_eq_none.mp free other mem
    rw [SsoUserRecord.isNamed, of_decide_eq_true same] at unnamed
    simp at unnamed
  have found : getUser user.ssoUser (db.users ++ [user]) = some user := by
    rw [getUser, List.find?_append, ← getUser, free, Option.none_or,
      List.find?_cons_of_pos (by simp [isNamed_self])]
  simp [createUser, Tx.transaction, Tx.bind_run, below, insertUser, unused, found]

end Runs

end GhcpConsole.EmuImport
