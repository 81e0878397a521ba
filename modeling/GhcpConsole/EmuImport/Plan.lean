import GhcpConsole.EmuImport.Users
import Mathlib.Data.List.Sort
import Mathlib.Data.String.Basic

/-!
# The import plan

`emuImportPlan.ts`: the rows that are planned for the SCIM users of GitHub, from the local users as they
are at the time, and `createEmuImportPlanRecord`, which stores them. Rows that are pending name different
users, and stand for different SCIM users where these have different ids (`buildEmuImportPlan_spec`).
-/

namespace GhcpConsole.EmuImport

open Sso

structure ScimEmail where
  value : List Char
  primary : Bool
  deriving DecidableEq, Repr

structure ScimUserResource where
  id : Option String
  externalId : Option (List Char)
  userName : List Char
  emails : List ScimEmail
  active : Option Bool
  githubLogin : Option (List Char)
  deriving DecidableEq, Repr

/-- `a || b` -/
def orElse (a : Option (List Char)) (b : List Char) : List Char :=
  match a with
  | some text => if text = [] then b else text
  | none => b

section Handle

def GITHUB_COM_MAX_LOGIN_LENGTH : Nat := 39
def GHE_COM_MAX_LOGIN_LENGTH : Nat := 30

/-- `[a-z0-9]` -/
def isHandleChar (c : Char) : Bool := ('a' ≤ c && c ≤ 'z') || ('0' ≤ c && c ≤ '9')

/-- `.replace(/[^a-z0-9]+/g, '-')`, after which there are no two dashes in a row to replace. -/
def handleRuns : (inRun : Bool) → List Char → List Char
  | _, [] => []
  | inRun, c :: text =>
      if isHandleChar c then c :: handleRuns false text
      else if inRun then handleRuns true text
      else '-' :: handleRuns true text

def normalizeHandle (letters : LowerCase) (userName shortcode : List Char) : List Char :=
  let handle := stripDashes (handleRuns false (letters.toLowerCase (userName.takeWhile (· ≠ '@'))))
  let suffix := if shortcode = [] then [] else '_' :: shortcode
  let maxLocal :=
    if suffix = [] then GHE_COM_MAX_LOGIN_LENGTH
    else max 1 (GITHUB_COM_MAX_LOGIN_LENGTH - utf16Length suffix)
  (if maxLocal < handle.length then (handle.take maxLocal).rdropWhile (· = '-') else handle) ++ suffix

end Handle

/-! ## Local users, as plan building and applying look them up -/

/-- Without enterprise: the rows by their name. -/
def listAllUsers (users : List SsoUserRecord) : List SsoUserRecord :=
  users.insertionSort fun a b => a.ssoUser ≤ b.ssoUser

structure LocalUserIndex where
  bySsoUser : List Char → Option SsoUserRecord
  byScimId : String → Option SsoUserRecord

/-- Where two users have one key, the map keeps the later one. -/
def localUserIndex (letters : LowerCase) (users : List SsoUserRecord) : LocalUserIndex where
  bySsoUser key := users.reverse.find? fun user => letters.toLowerCase user.ssoUser = key
  byScimId id := users.reverse.find? fun user => user.ghScimId = some id && id ≠ ""

/-- The SCIM id of a user, unless it is empty. -/
def SsoUserRecord.boundTo (user : SsoUserRecord) : Option String := user.ghScimId.filter (· ≠ "")

/-- `existing?.ghScimId && existing.ghScimId !== id` -/
def boundToOther (existing : Option SsoUserRecord) (id : String) : Option String :=
  (existing.bind (·.boundTo)).filter (· ≠ id)

section Build

-- Of the enterprise, besides what is read of GitHub and of the settings.
variable (letters : LowerCase) (shortcode : List Char)

def ssoUserFromScimUser (scimUser : ScimUserResource) : List Char :=
  orElse (some scimUser.userName) (orElse scimUser.externalId [])

def ghLoginFromScimUser (scimUser : ScimUserResource) (ssoUser : List Char) : List Char :=
  orElse scimUser.githubLogin (normalizeHandle letters (orElse (some ssoUser) scimUser.userName) shortcode)

def primaryEmail (scimUser : ScimUserResource) : Option (List Char) :=
  ((scimUser.emails.find? (·.primary)).map (·.value)).or (scimUser.emails.head?.map (·.value))

/-- A row before it is stored; a candidate has the SCIM user it is for. -/
structure PlannedEmuImportRow where
  row : EmuImportPlanRowRecord
  hasScimUser : Bool
  deriving DecidableEq, Repr

/-- A row with what every planned row has. -/
def emptyRow (ssoUser : Name) (status : ImportEmuUserStatus) (detail : String) : EmuImportPlanRowRecord where
  rowIndex := 0
  ssoUser := ssoUser
  email := none
  ghLogin := none
  ghScimId := none
  emuStatus := none
  copilotSeatStatus := none
  copilotSeatPendingCancellationDate := none
  status := status
  detail := detail
  action := none

def toPlannedCandidate (copilotSeats : List Char → Option CopilotSeatSnapshot) (emailDomain : List Char)
    (scimUser : ScimUserResource) : PlannedEmuImportRow :=
  let rawSsoUser := ssoUserFromScimUser scimUser
  match scimUser.id.filter (· ≠ "") with
  | none =>
      { row := emptyRow rawSsoUser .failed
          s!"GH SCIM user \"{String.ofList scimUser.userName}\" does not include an id."
        hasScimUser := false }
  | some id =>
      let ssoUser := sanitizeSsoUser letters rawSsoUser
      if ssoUser = [] then
        { row := { emptyRow (orElse (some rawSsoUser) (orElse scimUser.externalId scimUser.userName)) .failed
              s!"GH SCIM user \"{String.ofList scimUser.userName}\" cannot be mapped to an SSO user." with
            ghLogin := some (ghLoginFromScimUser letters shortcode scimUser rawSsoUser)
            ghScimId := some id }
          hasScimUser := false }
      else
        let ghLogin := ghLoginFromScimUser letters shortcode scimUser ssoUser
        let seat := (copilotSeats (letters.toLowerCase ghLogin)).getD .unassigned
        { row := { emptyRow ssoUser .pendingUpdate "" with
            email := some (orElse (primaryEmail scimUser) (ssoUser ++ '@' :: emailDomain))
            ghLogin := some ghLogin
            ghScimId := some id
            emuStatus := some (if scimUser.active = some false then .suspended else .active)
            copilotSeatStatus := some seat.status
            copilotSeatPendingCancellationDate := seat.pendingCancellationDate }
          hasScimUser := true }

def statusText : Option CopilotSeatStatus → String
  | none => "undefined"
  | some .unknown => "unknown"
  | some .assigned => "assigned"
  | some .pendingCancellation => "pending_cancellation"
  | some .unassigned => "unassigned"
  | some .assignFailed => "assign_failed"
  | some .removeFailed => "remove_failed"

def importSeatDescription (row : EmuImportPlanRowRecord) : String :=
  let date := row.copilotSeatPendingCancellationDate.getD "undefined"
  if row.copilotSeatStatus = some .pendingCancellation then s!"cancell at {date}"
  else statusText row.copilotSeatStatus

def planConflict (candidate : EmuImportPlanRowRecord) (duplicate : Bool) (index : LocalUserIndex) :
    Option String :=
  if duplicate then some s!"Multiple GH SCIM users map to SSO user \"{String.ofList candidate.ssoUser}\"."
  else
    let id := candidate.ghScimId.getD ""
    let existing := index.bySsoUser (letters.toLowerCase candidate.ssoUser)
    let boundLocalUser := (index.byScimId id).filter fun bound =>
      letters.toLowerCase bound.ssoUser ≠ letters.toLowerCase candidate.ssoUser
    match boundLocalUser, boundToOther existing id with
    | some bound, _ =>
        some s!"GH SCIM id is already bound to SSO user \"{String.ofList bound.ssoUser}\". Rename is not applied automatically."
    | none, some other => some s!"SSO user is already bound to different GH SCIM id \"{other}\"."
    | none, none => none

def isAlreadyAligned (existing : SsoUserRecord) (row : EmuImportPlanRowRecord) : Bool :=
  some existing.email = row.email && existing.ghLogin = row.ghLogin && existing.ghScimId = row.ghScimId &&
    some existing.emuStatus = row.emuStatus && some existing.copilotSeatStatus = row.copilotSeatStatus &&
    existing.copilotSeatPendingCancellationDate = row.copilotSeatPendingCancellationDate &&
    (existing.copilotSeatLastError.filter (· ≠ "")).isNone

def planCandidate (candidate : PlannedEmuImportRow) (duplicate : Bool) (index : LocalUserIndex) :
    EmuImportPlanRowRecord :=
  let row := candidate.row
  if !candidate.hasScimUser || row.status = .failed then row
  else
    match planConflict letters row duplicate index with
    | some conflict => { row with action := none, status := .conflict, detail := conflict }
    | none =>
        match index.bySsoUser (letters.toLowerCase row.ssoUser) with
        | none =>
            { row with
              action := some .create
              status := .pendingCreate
              detail := s!"Will create SSO user using the configured default password policy. Direct Copilot seat: {importSeatDescription row}." }
        | some existing =>
            if isAlreadyAligned existing row then
              { row with
                action := some .skip
                status := .skipped
                detail := "SSO user and Copilot seat are already aligned with GH." }
            else
              { row with
                action := some .update
                status := .pendingUpdate
                detail := s!"Will update local GH metadata. Direct Copilot seat: {importSeatDescription row}." }

/-- `duplicateValues(...).has(value)` -/
def isDuplicate (values : List Name) (value : Name) : Bool := 2 ≤ values.count value

def buildEmuImportPlan (copilotSeats : List Char → Option CopilotSeatSnapshot) (emailDomain : List Char)
    (users : List SsoUserRecord) (scimUsers : List ScimUserResource) : List EmuImportPlanRowRecord :=
  let candidates := scimUsers.map (toPlannedCandidate letters shortcode copilotSeats emailDomain)
  let names := (candidates.filter (·.hasScimUser)).map (·.row.ssoUser)
  let index := localUserIndex letters (listAllUsers users)
  candidates.map fun candidate =>
    planCandidate letters candidate (isDuplicate names candidate.row.ssoUser) index

/-- The plan that is stored: rows are numbered from 1. -/
def storedPlan (rows : List EmuImportPlanRowRecord) : EmuImportPlan where
  status := .planned
  rows := rows.zipIdx.map fun (row, index) => { row with rowIndex := index + 1 }

end Build

/-! ## What is planned -/

/-- `status IN ('pending_create', 'pending_update')` -/
def EmuImportPlanRowRecord.isPending (row : EmuImportPlanRowRecord) : Bool :=
  row.status = .pendingCreate || row.status = .pendingUpdate

/-- What a pending row has. -/
structure PendingRow (row : EmuImportPlanRowRecord) : Prop where
  action : (row.status = .pendingCreate ∧ row.action = some .create) ∨
    (row.status = .pendingUpdate ∧ row.action = some .update)
  name : ∀ c ∈ row.ssoUser, isNameChar c = true
  seat : ∃ seat : CopilotSeatSnapshot, row.copilotSeatStatus = some seat.status ∧
    row.copilotSeatPendingCancellationDate = seat.pendingCancellationDate

/-- The rows of a plan. -/
structure PlanRows (rows : List EmuImportPlanRowRecord) : Prop where
  indexes : Keyed (·.rowIndex) rows
  pending : ∀ row ∈ rows, row.isPending = true → PendingRow row
  names : rows.Pairwise fun a b => a.isPending = true → b.isPending = true → a.ssoUser ≠ b.ssoUser

/-- Pending rows stand for different SCIM users. -/
def DistinctScimIds (rows : List EmuImportPlanRowRecord) : Prop :=
  rows.Pairwise fun a b => a.isPending = true → b.isPending = true → a.ghScimId ≠ b.ghScimId

section Facts

variable {letters : LowerCase} {shortcode : List Char}
variable {copilotSeats : List Char → Option CopilotSeatSnapshot} {emailDomain : List Char}
variable {candidate : PlannedEmuImportRow} {duplicate : Bool} {index : LocalUserIndex}
variable {users : List SsoUserRecord} {scimUsers : List ScimUserResource}

theorem planCandidate_ssoUser :
    (planCandidate letters candidate duplicate index).ssoUser = candidate.row.ssoUser := by
  unfold planCandidate
  dsimp only
  split
  · rfl
  · split
    · rfl
    · split
      · rfl
      · split <;> rfl

theorem planCandidate_ghScimId :
    (planCandidate letters candidate duplicate index).ghScimId = candidate.row.ghScimId := by
  unfold planCandidate
  dsimp only
  split
  · rfl
  · split
    · rfl
    · split
      · rfl
      · split <;> rfl

/-- A candidate whose row becomes pending. -/
theorem planCandidate_pending (failed : candidate.hasScimUser = false → candidate.row.status = .failed)
    (pending : (planCandidate letters candidate duplicate index).isPending = true) :
    candidate.hasScimUser = true ∧ duplicate = false ∧
      let row := planCandidate letters candidate duplicate index
      ((row.status = .pendingCreate ∧ row.action = some .create) ∨
        (row.status = .pendingUpdate ∧ row.action = some .update)) ∧
      row.copilotSeatStatus = candidate.row.copilotSeatStatus ∧
      row.copilotSeatPendingCancellationDate = candidate.row.copilotSeatPendingCancellationDate := by
  unfold planCandidate at pending ⊢
  dsimp only at pending ⊢
  split at pending
  · rename_i kept
    have isFailed : candidate.row.status = .failed := by
      rcases Bool.or_eq_true_iff.mp kept with noScimUser | isFailed
      · exact failed (by simpa using noScimUser)
      · simpa using isFailed
    simp [EmuImportPlanRowRecord.isPending, isFailed] at pending
  · rename_i kept
    have hasScimUser : candidate.hasScimUser = true := by
      by_contra noScimUser
      exact kept (by simp [noScimUser])
    rw [if_neg kept]
    split at pending
    · cases pending
    · rename_i noConflict
      have unique : duplicate = false := by
        cases duplicate with
        | false => rfl
        | true => cases noConflict
      split at pending
      · exact ⟨hasScimUser, unique, Or.inl ⟨rfl, rfl⟩, rfl, rfl⟩
      · split at pending
        · cases pending
        · rename_i different
          rw [if_neg different]
          exact ⟨hasScimUser, unique, Or.inr ⟨rfl, rfl⟩, rfl, rfl⟩

/-- A candidate, and the SCIM user it is for. -/
structure Candidate (scimUser : ScimUserResource) (candidate : PlannedEmuImportRow) : Prop where
  failed : candidate.hasScimUser = false → candidate.row.status = .failed
  ghScimId : ∀ id, candidate.row.ghScimId = some id → scimUser.id.filter (· ≠ "") = some id
  hasId : candidate.hasScimUser = true → ∃ id, candidate.row.ghScimId = some id
  name : candidate.hasScimUser = true → ∀ c ∈ candidate.row.ssoUser, isNameChar c = true
  seat : candidate.hasScimUser = true → ∃ seat : CopilotSeatSnapshot,
    candidate.row.copilotSeatStatus = some seat.status ∧
      candidate.row.copilotSeatPendingCancellationDate = seat.pendingCancellationDate

theorem toPlannedCandidate_spec (scimUser : ScimUserResource) :
    Candidate scimUser (toPlannedCandidate letters shortcode copilotSeats emailDomain scimUser) := by
  unfold toPlannedCandidate
  dsimp only
  split
  · constructor <;> simp [emptyRow]
  · rename_i id isId
    split
    · constructor
      · exact fun _ => rfl
      · intro other same
        cases same
        exact isId
      · exact fun h => by cases h
      · exact fun h => by cases h
      · exact fun h => by cases h
    · constructor
      · intro h
        cases h
      · intro other same
        cases same
        exact isId
      · exact fun _ => ⟨id, rfl⟩
      · exact fun _ c mem => isNameChar_normalizeName letters _ c (List.mem_of_mem_take mem)
      · exact fun _ => ⟨_, rfl, rfl⟩

section Build

variable (letters shortcode copilotSeats emailDomain users scimUsers)

/-- The names of the candidates. -/
def candidateNames : List Name :=
  ((scimUsers.map (toPlannedCandidate letters shortcode copilotSeats emailDomain)).filter
    (·.hasScimUser)).map (·.row.ssoUser)

/-- The row of one of the SCIM users. -/
def rowOf (scimUser : ScimUserResource) : EmuImportPlanRowRecord :=
  let candidate := toPlannedCandidate letters shortcode copilotSeats emailDomain scimUser
  let names := candidateNames letters shortcode copilotSeats emailDomain scimUsers
  planCandidate letters candidate (isDuplicate names candidate.row.ssoUser)
    (localUserIndex letters (listAllUsers users))

theorem buildEmuImportPlan_eq :
    buildEmuImportPlan letters shortcode copilotSeats emailDomain users scimUsers =
      scimUsers.map (rowOf letters shortcode copilotSeats emailDomain users scimUsers) := by
  rw [buildEmuImportPlan, List.map_map]
  rfl

variable {letters shortcode copilotSeats emailDomain users scimUsers} {scimUser : ScimUserResource}

/-- A row that is pending, and the candidate it was. -/
structure PendingRowOf (names : List Name) (scimUser : ScimUserResource)
    (candidate : PlannedEmuImportRow) (row : EmuImportPlanRowRecord) : Prop where
  planned : PendingRow row
  ssoUser : row.ssoUser = candidate.row.ssoUser
  isCandidate : candidate.hasScimUser = true
  unique : isDuplicate names row.ssoUser = false
  id : ∃ id, row.ghScimId = some id ∧ scimUser.id.filter (· ≠ "") = some id

theorem rowOf_pending
    (pending : (rowOf letters shortcode copilotSeats emailDomain users scimUsers scimUser).isPending = true) :
    PendingRowOf (candidateNames letters shortcode copilotSeats emailDomain scimUsers) scimUser
      (toPlannedCandidate letters shortcode copilotSeats emailDomain scimUser)
      (rowOf letters shortcode copilotSeats emailDomain users scimUsers scimUser) := by
  have spec : Candidate scimUser (toPlannedCandidate letters shortcode copilotSeats emailDomain scimUser) :=
    toPlannedCandidate_spec scimUser
  obtain ⟨isCandidate, unique, action, seatStatus, date⟩ := planCandidate_pending spec.failed pending
  have name : (rowOf letters shortcode copilotSeats emailDomain users scimUsers scimUser).ssoUser =
      (toPlannedCandidate letters shortcode copilotSeats emailDomain scimUser).row.ssoUser :=
    planCandidate_ssoUser
  obtain ⟨seat, isSeat, isDate⟩ := spec.seat isCandidate
  obtain ⟨id, isId⟩ := spec.hasId isCandidate
  refine ⟨⟨action, ?_, seat, seatStatus.trans isSeat, date.trans isDate⟩, name, isCandidate, ?_, id, ?_, ?_⟩
  · rw [name]
    exact spec.name isCandidate
  · rw [name]
    exact unique
  · exact planCandidate_ghScimId.trans isId
  · exact spec.ghScimId id isId

theorem buildEmuImportPlan_names :
    (buildEmuImportPlan letters shortcode copilotSeats emailDomain users scimUsers).Pairwise fun a b =>
      a.isPending = true → b.isPending = true → a.ssoUser ≠ b.ssoUser := by
  rw [buildEmuImportPlan_eq, List.pairwise_map, List.pairwise_iff_forall_sublist]
  intro a b isSublist pendingA pendingB same
  have first := rowOf_pending pendingA
  have second := rowOf_pending pendingB
  have both := ((isSublist.map (toPlannedCandidate letters shortcode copilotSeats emailDomain)).filter
    (·.hasScimUser)).map (·.row.ssoUser)
  simp only [List.map_cons, List.map_nil, List.filter_cons, first.isCandidate, second.isCandidate, if_true,
    List.filter_nil] at both
  have twice := both.count_le (rowOf letters shortcode copilotSeats emailDomain users scimUsers a).ssoUser
  rw [← first.ssoUser, ← second.ssoUser, ← same, List.count_cons_self, List.count_cons_self] at twice
  have unique := first.unique
  rw [isDuplicate, decide_eq_false_iff_not, candidateNames] at unique
  omega

theorem buildEmuImportPlan_ids (distinct : (scimUsers.filterMap fun user => user.id.filter (· ≠ "")).Nodup) :
    DistinctScimIds (buildEmuImportPlan letters shortcode copilotSeats emailDomain users scimUsers) := by
  unfold DistinctScimIds
  rw [buildEmuImportPlan_eq, List.pairwise_map]
  rw [List.Nodup, List.pairwise_filterMap] at distinct
  refine distinct.imp fun {a b} apart pendingA pendingB same => ?_
  obtain ⟨id, isId, isScimId⟩ := (rowOf_pending pendingA).id
  obtain ⟨id', isId', isScimId'⟩ := (rowOf_pending pendingB).id
  rw [isId, isId'] at same
  exact apart id isScimId id' isScimId' (Option.some.inj same)

end Build

/-! ## The stored plan -/

theorem storedPlan_indexes (rows : List EmuImportPlanRowRecord) :
    Keyed (·.rowIndex) (storedPlan rows).rows := by
  have indexes : ((storedPlan rows).rows.map (·.rowIndex)) = (List.range' 0 rows.length).map (· + 1) := by
    rw [storedPlan, List.map_map, ← List.zipIdx_map_snd 0 rows, List.map_map]
    rfl
  rw [Keyed, indexes]
  exact List.Nodup.map Nat.succ_injective (List.nodup_range' ..)

theorem storedPlan_pairwise {rows : List EmuImportPlanRowRecord}
    {R : EmuImportPlanRowRecord → EmuImportPlanRowRecord → Prop}
    (numbered : ∀ a b i j, R a b → R { a with rowIndex := i } { b with rowIndex := j })
    (h : rows.Pairwise R) : (storedPlan rows).rows.Pairwise R := by
  rw [storedPlan, List.pairwise_map]
  have pairs : rows.zipIdx.Pairwise fun p q => R p.1 q.1 := by
    rw [← List.pairwise_map (f := Prod.fst), List.zipIdx_map_fst]
    exact h
  exact pairs.imp fun {p q} related => numbered p.1 q.1 _ _ related

/-- What is stored of a plan: its pending rows are as the plan was built. -/
theorem storedPlan_rows :
    PlanRows (storedPlan (buildEmuImportPlan letters shortcode copilotSeats emailDomain users scimUsers)).rows where
  indexes := storedPlan_indexes _
  pending row mem isPending := by
    rw [storedPlan] at mem
    obtain ⟨⟨planned, index⟩, inZip, rfl⟩ := List.mem_map.mp mem
    have isPlanned : planned ∈ buildEmuImportPlan letters shortcode copilotSeats emailDomain users scimUsers := by
      rw [← List.zipIdx_map_fst 0 (buildEmuImportPlan _ _ _ _ _ _)]
      exact List.mem_map.mpr ⟨_, inZip, rfl⟩
    rw [buildEmuImportPlan_eq] at isPlanned
    obtain ⟨scimUser, _, rfl⟩ := List.mem_map.mp isPlanned
    have spec := (rowOf_pending isPending).planned
    exact ⟨spec.action, spec.name, spec.seat⟩
  names := storedPlan_pairwise (fun _ _ _ _ related => related) buildEmuImportPlan_names

theorem storedPlan_ids (distinct : (scimUsers.filterMap fun user => user.id.filter (· ≠ "")).Nodup) :
    DistinctScimIds
      (storedPlan (buildEmuImportPlan letters shortcode copilotSeats emailDomain users scimUsers)).rows :=
  storedPlan_pairwise (fun _ _ _ _ related => related) (buildEmuImportPlan_ids distinct)

end Facts

end GhcpConsole.EmuImport
