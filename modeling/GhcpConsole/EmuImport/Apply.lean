import GhcpConsole.EmuImport.Plan

/-!
# Applying an import plan

`emuImportApply.ts`: the transaction in which the pending rows of a plan are applied to the local users,
one after the other, against an index of these users that is read once. A row that cannot be applied is
stored as failed or as a conflict, except where an error other than the limit of users is thrown.
-/

namespace GhcpConsole.EmuImport

open Sso

/-- A calendar date, as in `YYYY-MM-DD`. -/
def isCancellationDate (value : String) : Bool :=
  match value.toList with
  | [y₁, y₂, y₃, y₄, '-', m₁, m₂, '-', d₁, d₂] =>
      let digits := [y₁, y₂, y₃, y₄, m₁, m₂, d₁, d₂]
      let number (text : List Char) : Nat := text.foldl (fun n c => 10 * n + (c.toNat - '0'.toNat)) 0
      let year := number [y₁, y₂, y₃, y₄]
      let month := number [m₁, m₂]
      let day := number [d₁, d₂]
      let leap := year % 4 = 0 && (year % 100 ≠ 0 || year % 400 = 0)
      let days := if month = 2 then (if leap then 29 else 28) else if month ∈ [4, 6, 9, 11] then 30 else 31
      digits.all (·.isDigit) && 1 ≤ month && month ≤ 12 && 1 ≤ day && day ≤ days
  | _ => false

/-- The fields of a complete row. -/
structure CompleteRow where
  ghScimId : String
  ghLogin : List Char
  email : List Char
  emuStatus : EmuStatus
  copilotSeatStatus : CopilotSeatStatus
  deriving DecidableEq, Repr

/-- `isCompleteRow(row)`, with the fields. -/
def completeRow (row : EmuImportPlanRowRecord) : Option CompleteRow :=
  match row.ghScimId, row.ghLogin, row.email, row.emuStatus, row.copilotSeatStatus with
  | some ghScimId, some ghLogin, some email, some emuStatus, some copilotSeatStatus =>
      if ghScimId ≠ "" && ghLogin ≠ [] && email ≠ [] then
        some { ghScimId, ghLogin, email, emuStatus, copilotSeatStatus }
      else none
  | _, _, _, _, _ => none

section Apply

-- Appending to the log of events may fail for a user.
variable (letters : LowerCase) (eventFails : Name → Bool)

def staleConflictForRow (row : EmuImportPlanRowRecord) (index : LocalUserIndex) : Option String :=
  match completeRow row with
  | none => some "Import plan row is incomplete."
  | some complete =>
      if complete.copilotSeatStatus = .pendingCancellation &&
          !row.copilotSeatPendingCancellationDate.any isCancellationDate then
        some "Import plan has an invalid pending cancellation date. Preview again before applying."
      else
        let existing := index.bySsoUser (letters.toLowerCase row.ssoUser)
        let boundLocalUser := (index.byScimId complete.ghScimId).filter fun bound =>
          letters.toLowerCase bound.ssoUser ≠ letters.toLowerCase row.ssoUser
        match boundLocalUser, boundToOther existing complete.ghScimId with
        | some bound, _ =>
            some s!"GH SCIM id is already bound to SSO user \"{String.ofList bound.ssoUser}\". Preview again before applying."
        | none, some other =>
            some s!"SSO user is already bound to different GH SCIM id \"{other}\". Preview again before applying."
        | none, none =>
            if row.action = some .create && existing.isSome then
              some "SSO user now exists. Preview again before applying."
            else if row.action = some .update && existing.isNone then
              some "SSO user disappeared after preview. Preview again before applying."
            else none

def importSeatSnapshot (row : EmuImportPlanRowRecord) : Program CopilotSeatSnapshot :=
  match row.copilotSeatStatus, row.copilotSeatPendingCancellationDate with
  | some .pendingCancellation, some date =>
      if isCancellationDate date then pure (.pendingCancellation date)
      else Tx.raise (.other "Import plan has an invalid Copilot seat snapshot. Preview again before applying.")
  | some .assigned, _ => pure .assigned
  | some .unassigned, _ => pure .unassigned
  | _, _ => Tx.raise (.other "Import plan has an invalid Copilot seat snapshot. Preview again before applying.")

def appendUserEvent (user : SsoUserRecord) : Program Unit :=
  if eventFails user.ssoUser then Tx.raise (.other "The event log cannot be written.") else pure ()

/-- The row counts as applied to users. -/
def noteApplied (row : EmuImportPlanRowRecord) : Program Unit :=
  Tx.write fun db => { db with applied := db.applied ++ [row.rowIndex] }

/-- What is stored of a row that has been applied. -/
def appliedRow (row : EmuImportPlanRowRecord) (updated : SsoUserRecord) (status : ImportEmuUserStatus)
    (detail : String) : EmuImportPlanRowRecord :=
  { row with
    email := some updated.email
    ghLogin := updated.ghLogin
    ghScimId := updated.ghScimId
    emuStatus := some updated.emuStatus
    status
    detail
    action := none }

def createImportedUser (row : EmuImportPlanRowRecord) (complete : CompleteRow)
    (passwordHash : Option PasswordHash) : Program EmuImportPlanRowRecord := do
  match passwordHash with
  | none =>
      pure { row with
        action := none
        status := .failed
        detail := "Import plan changed while applying. Preview again before applying." }
  | some passwordHash =>
      let created ← createUser (newUser row.ssoUser passwordHash complete.email)
      let _ ← updateEmu created.ssoUser complete.ghLogin complete.ghScimId complete.emuStatus
      let seat ← importSeatSnapshot row
      let updated ← updateCopilotSeatFromGitHub created.ssoUser seat
      appendUserEvent eventFails updated
      noteApplied row
      pure (appliedRow row updated .created s!"Created SSO user using the configured default password policy. Direct Copilot seat: {importSeatDescription row}.")

def updateImportedUser (row : EmuImportPlanRowRecord) (complete : CompleteRow) :
    Program EmuImportPlanRowRecord := do
  let _ ← updateUser row.ssoUser complete.email
  let _ ← updateEmu row.ssoUser complete.ghLogin complete.ghScimId complete.emuStatus
  let seat ← importSeatSnapshot row
  let updated ← updateCopilotSeatFromGitHub row.ssoUser seat
  noteApplied row
  pure (appliedRow row updated .updated s!"Updated SSO user from GH SCIM. Direct Copilot seat: {importSeatDescription row}.")

def applyEmuImportRow (row : EmuImportPlanRowRecord) (passwordHash : Option PasswordHash) :
    Program EmuImportPlanRowRecord :=
  if row.action = some .skip || row.status = .conflict || row.status = .failed then
    pure { row with action := none }
  else
    match completeRow row with
    | none => pure { row with action := none, status := .failed, detail := "Import plan row is incomplete." }
    | some complete =>
        match row.action with
        | some .create => createImportedUser eventFails row complete passwordHash
        | some .update => updateImportedUser row complete
        | _ =>
            pure { row with
              action := none
              status := .failed
              detail := "Import plan row has no applicable action." }

def applyStoredEmuImportRow (row : EmuImportPlanRowRecord) (index : LocalUserIndex)
    (passwordHash : Option PasswordHash) : Program EmuImportPlanRowRecord :=
  match staleConflictForRow letters row index with
  | some conflict => pure { row with action := none, status := .conflict, detail := conflict }
  | none => applyEmuImportRow eventFails row passwordHash

def isLimitReached : ApplyError → Bool
  | .limitReached _ _ => true
  | _ => false

def limitMessage : ApplyError → String
  | .limitReached current limit =>
      s!"SSO user limit of {limit} has been reached ({current} users currently exist)."
  | _ => ""

def applyPendingRow (row : EmuImportPlanRowRecord) (index : LocalUserIndex)
    (passwordHash : Option PasswordHash) : Program EmuImportPlanRowRecord := do
  match ← Tx.tryReturn isLimitReached (applyStoredEmuImportRow letters eventFails row index passwordHash) with
  | .ok applied => pure applied
  | .error error => pure { row with action := none, status := .failed, detail := limitMessage error }

/-- `UPDATE ... WHERE row_index = ?`, for one row; its name is not written. -/
def setColumns (applied row : EmuImportPlanRowRecord) : EmuImportPlanRowRecord :=
  if row.rowIndex = applied.rowIndex then { applied with ssoUser := row.ssoUser } else row

def EmuImportPlan.setRow (applied : EmuImportPlanRowRecord) (plan : EmuImportPlan) : EmuImportPlan :=
  { plan with rows := plan.rows.map (setColumns applied) }

def updateEmuImportPlanRow (applied : EmuImportPlanRowRecord) : Program Unit :=
  Tx.write fun db => { db with plan := db.plan.map (·.setRow applied) }

def markEmuImportPlanApplied : Program Unit :=
  Tx.write fun db => { db with plan := db.plan.map fun plan => { plan with status := .applied } }

def requireEmuImportPlan : Program EmuImportPlan := do
  match ← Tx.read (·.plan) with
  | some plan => pure plan
  | none => Tx.raise .planNotFound

/-- The rows are stored in the order of their index. -/
def listPendingEmuImportPlanRows : Program (List EmuImportPlanRowRecord) := do
  let plan ← requireEmuImportPlan
  pure (plan.rows.filter (·.isPending))

/-- The round of the loop for one row. -/
def applyRound (index : LocalUserIndex) (passwordHashes : Nat → Option PasswordHash)
    (row : EmuImportPlanRowRecord) : Program PUnit := do
  let applied ← applyPendingRow letters eventFails row index (passwordHashes row.rowIndex)
  updateEmuImportPlanRow applied

/-- What the transaction of `applyEmuImportPlan` does. -/
def applyPendingRows (passwordHashes : Nat → Option PasswordHash) : Program Unit := do
  let pendingRows ← listPendingEmuImportPlanRows
  let users ← Tx.read (·.users)
  pendingRows.forM (applyRound letters eventFails (localUserIndex letters (listAllUsers users)) passwordHashes)
  markEmuImportPlanApplied

/-- `applyEmuImportPlan` from its transaction on. -/
def applyEmuImportPlan (passwordHashes : Nat → Option PasswordHash) : Program EmuImportPlan := do
  Tx.transaction rollback (applyPendingRows letters eventFails passwordHashes)
  requireEmuImportPlan

end Apply

end GhcpConsole.EmuImport
