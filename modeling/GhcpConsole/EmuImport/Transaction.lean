import GhcpConsole.EmuImport.Rounds

/-!
# The rounds of a transaction

What holds between the rounds of one transaction, told from the database that it began with
(`BetweenRounds`), and what the transaction leaves behind when it returns: no row is pending, every
user that was bound keeps its id, and whoever is bound either was so or is named by a row that no stale
conflict stopped.
-/

namespace GhcpConsole.EmuImport

open Sso

section Names

variable {name other : Name} {users : List SsoUserRecord} {user : SsoUserRecord} {letters : LowerCase}
variable {set : SsoUserRecord → SsoUserRecord}

theorem name_unique (names : ∀ c ∈ name, isNameChar c = true) (names' : ∀ c ∈ other, isNameChar c = true)
    (isNamed : user.isNamed name = true) (isNamed' : user.isNamed other = true) : name = other := by
  simp only [SsoUserRecord.isNamed, decide_eq_true_eq] at isNamed isNamed'
  rw [← sqlLower_of_names names, ← isNamed, isNamed', sqlLower_of_names names']

variable (set) in
theorem getUser_setNamed_other (keeps : ∀ user, (set user).ssoUser = user.ssoUser)
    (apart : ∀ user : SsoUserRecord, user.isNamed name = true → user.isNamed other = false) :
    getUser other (setNamed name set users) = getUser other users := by
  induction users with
  | nil => rfl
  | cons user users ih =>
      rw [setNamed, List.map_cons, ← setNamed, getUser, getUser]
      cases isNamed : user.isNamed name with
      | true =>
          have unnamed := apart user isNamed
          have unnamed' : (set user).isNamed other = false := (isNamed_set keeps).trans unnamed
          rw [if_pos rfl, List.find?_cons_of_neg (by simp [unnamed']),
            List.find?_cons_of_neg (by simp [unnamed])]
          exact ih
      | false =>
          rw [if_neg Bool.false_ne_true, List.find?_cons, List.find?_cons]
          cases user.isNamed other with
          | true => rfl
          | false => exact ih

theorem getUser_append_other (unnamed : user.isNamed other = false) :
    getUser other (users ++ [user]) = getUser other users := by
  rw [getUser, List.find?_append, List.find?_cons_of_neg (by simp [unnamed])]
  simp [getUser]

theorem ValidUsers.append (valid : ValidUsers letters users) (free : getUser user.ssoUser users = none)
    (ascii : ∀ c ∈ user.ssoUser, c.toNat < 128) : ValidUsers letters (users ++ [user]) where
  distinct := valid.distinct.append fun other mem same => by
    have unnamed := getUser_eq_none.mp free other mem
    rw [SsoUserRecord.isNamed, decide_eq_false_iff_not] at unnamed
    exact unnamed same
  ascii other mem := by
    rcases List.mem_append.mp mem with old | new
    · exact valid.ascii other old
    · rw [List.mem_singleton.mp new]
      exact fun _ => ascii

theorem ValidUsers.setNamed (valid : ValidUsers letters users) (keeps : ∀ user, (set user).ssoUser = user.ssoUser) :
    ValidUsers letters (setNamed name set users) where
  distinct := valid.distinct.map fun user => by
    split
    · rw [keeps]
    · rfl
  ascii other mem := by
    obtain ⟨user, old, rfl⟩ := List.mem_map.mp mem
    split
    · rw [keeps]
      exact valid.ascii user old
    · exact valid.ascii user old

end Names

section Rounds

variable {letters : LowerCase} {eventFails : Name → Bool} {passwordHashes : Nat → Option PasswordHash}
variable {pending todo : List EmuImportPlanRowRecord} {row : EmuImportPlanRowRecord} {start db db' : Db}

/-- The rows that a transaction applies. -/
structure PendingRows (pending : List EmuImportPlanRowRecord) : Prop where
  planned : ∀ row ∈ pending, PendingRow row
  names : pending.Pairwise fun a b => a.ssoUser ≠ b.ssoUser
  indexes : Keyed (·.rowIndex) pending

/-- No stale conflict stops the row, and it stands for the SCIM user `id`. -/
def Imports (letters : LowerCase) (users : List SsoUserRecord) (row : EmuImportPlanRowRecord) (id : String) :
    Prop :=
  ∃ complete seat,
    Unconflicted letters (localUserIndex letters (listAllUsers users)) row complete seat ∧
      complete.ghScimId = id

/-- What holds between the rounds of the rows: `todo` are those still to come. -/
structure BetweenRounds (letters : LowerCase) (pending : List EmuImportPlanRowRecord) (start : Db)
    (todo : List EmuImportPlanRowRecord) (db : Db) : Prop where
  rest : todo <:+ pending
  valid : ValidUsers letters db.users
  same : ∀ row ∈ todo, getUser row.ssoUser db.users = getUser row.ssoUser start.users
  pool : db.poolManaged = start.poolManaged
  limit : db.maxSsoUsers = start.maxSsoUsers
  bound : ∀ user ∈ db.users, ∀ id, user.boundTo = some id →
    (∃ old ∈ start.users, old.ssoUser = user.ssoUser ∧ old.boundTo = some id) ∨
      ∃ row ∈ pending, Imports letters start.users row id ∧ user.isNamed row.ssoUser = true
  kept : ∀ old ∈ start.users, ∀ id, old.boundTo = some id →
    ∃ user ∈ db.users, user.ssoUser = old.ssoUser ∧ user.boundTo = some id
  once : db.applied.Nodup
  fresh : ∀ row ∈ todo, row.rowIndex ∉ db.applied
  noted : ∃ rows, db.applied = start.applied ++ rows ∧ (rows = [] → db.users = start.users)
  plan : ∃ plan, db.plan = some plan ∧ Keyed (·.rowIndex) plan.rows ∧
    ∀ row ∈ plan.rows, row.isPending = true → row ∈ todo

/-- The index is made of the users that the transaction began with. -/
theorem BetweenRounds.index (h : BetweenRounds letters pending start (row :: todo) db)
    (valid : ValidUsers letters start.users) (rows : PendingRows pending) :
    (localUserIndex letters (listAllUsers start.users)).bySsoUser (letters.toLowerCase row.ssoUser) =
      getUser row.ssoUser db.users := by
  have mem : row ∈ pending := h.rest.mem (.head _)
  rw [bySsoUser_eq valid (rows.planned row mem).name, h.same row (.head _)]

theorem boundTo_of_ghScimId {user : SsoUserRecord} {id : String} (isId : user.ghScimId = some id)
    (nonempty : id ≠ "") : user.boundTo = some id := by
  rw [SsoUserRecord.boundTo, isId, Option.filter_some]
  simp [nonempty]

/-- A row keeps the id of the user it updates. -/
theorem Unconflicted.keeps {complete : CompleteRow} {seat : CopilotSeatSnapshot} {index : LocalUserIndex}
    {old : SsoUserRecord} {id : String} (row_ok : Unconflicted letters index row complete seat)
    (found : index.bySsoUser (letters.toLowerCase row.ssoUser) = some old) (bound : old.boundTo = some id) :
    id = complete.ghScimId := by
  have existing := row_ok.existing
  rw [boundToOther, found, Option.bind_some, bound, Option.filter_eq_none_iff] at existing
  simpa using existing id rfl

/-- The rows still to come when the first of them is done. -/
theorem suffix_of_cons {α : Type} {a : α} {l l' : List α} (h : a :: l <:+ l') : l <:+ l' :=
  (List.suffix_cons a l).trans h

/-- The first of the rows is none of the others. -/
theorem PendingRows.apart (rows : PendingRows pending) (h : row :: todo <:+ pending) :
    ∀ other ∈ todo, row.rowIndex ≠ other.rowIndex ∧
      ∀ user : SsoUserRecord, user.isNamed row.ssoUser = true → user.isNamed other.ssoUser = false := by
  intro other mem
  have sub := h.sublist
  refine ⟨fun same => ?_, fun user isNamed => Bool.eq_false_iff.mpr fun isNamed' => ?_⟩
  · have keys := rows.indexes.sublist sub
    rw [Keyed, List.map_cons, List.nodup_cons] at keys
    exact keys.1 (same ▸ List.mem_map_of_mem mem)
  · have names := List.rel_of_pairwise_cons (rows.names.sublist sub) mem
    exact names (name_unique (rows.planned row (h.mem (.head _))).name
      (rows.planned other (h.mem (.tail _ mem))).name isNamed isNamed')

/-! ## One round -/

variable {applied : EmuImportPlanRowRecord} {complete : CompleteRow} {seat : CopilotSeatSnapshot}

theorem setColumns_rowIndex (applied row : EmuImportPlanRowRecord) :
    (setColumns applied row).rowIndex = row.rowIndex := by
  unfold setColumns
  split
  · rename_i here
    exact here.symm
  · rfl

theorem setColumns_of_ne (elsewhere : row.rowIndex ≠ applied.rowIndex) : setColumns applied row = row :=
  if_neg elsewhere

theorem setColumns_status (here : row.rowIndex = applied.rowIndex) :
    (setColumns applied row).status = applied.status := by
  rw [setColumns, if_pos here]

theorem isPending_setRow (settled : applied.isPending = false) {plan : EmuImportPlan}
    {stored : EmuImportPlanRowRecord} (mem : stored ∈ (plan.setRow applied).rows)
    (isPending : stored.isPending = true) :
    stored ∈ plan.rows ∧ stored.rowIndex ≠ applied.rowIndex := by
  obtain ⟨old, inPlan, rfl⟩ := List.mem_map.mp mem
  by_cases here : old.rowIndex = applied.rowIndex
  · rw [EmuImportPlanRowRecord.isPending, setColumns_status here] at isPending
    exact absurd isPending (by simpa [EmuImportPlanRowRecord.isPending] using settled)
  · rw [setColumns_of_ne here]
    exact ⟨inPlan, here⟩

theorem BetweenRounds.plan_setRow (h : BetweenRounds letters pending start (row :: todo) db)
    (isRow : applied.rowIndex = row.rowIndex) (settled : applied.isPending = false) :
    ∃ plan, db.plan.map (·.setRow applied) = some plan ∧ Keyed (·.rowIndex) plan.rows ∧
      ∀ row ∈ plan.rows, row.isPending = true → row ∈ todo := by
  obtain ⟨plan, isPlan, indexes, isTodo⟩ := h.plan
  refine ⟨plan.setRow applied, by rw [isPlan, Option.map_some], indexes.map (setColumns_rowIndex applied),
    fun stored mem isPending => ?_⟩
  obtain ⟨inPlan, elsewhere⟩ := isPending_setRow settled mem isPending
  rcases List.mem_cons.mp (isTodo stored inPlan isPending) with rfl | later
  · exact absurd isRow.symm elsewhere
  · exact later

theorem BetweenRounds.refused (h : BetweenRounds letters pending start (row :: todo) db)
    (isRow : applied.rowIndex = row.rowIndex) (settled : applied.isPending = false) :
    BetweenRounds letters pending start todo { db with plan := db.plan.map (·.setRow applied) } where
  rest := suffix_of_cons h.rest
  valid := h.valid
  same other mem := h.same other (.tail _ mem)
  pool := h.pool
  limit := h.limit
  bound := h.bound
  kept := h.kept
  once := h.once
  fresh other mem := h.fresh other (.tail _ mem)
  noted := h.noted
  plan := h.plan_setRow isRow settled

/-- The rows noted as applied, with one more. -/
theorem BetweenRounds.once_append (h : BetweenRounds letters pending start (row :: todo) db) :
    (db.applied ++ [row.rowIndex]).Nodup := by
  refine List.nodup_append.mpr ⟨h.once, List.nodup_singleton _, fun i noted j isRow same => ?_⟩
  rw [List.mem_singleton.mp isRow] at same
  exact h.fresh row (.head _) (same ▸ noted)

theorem BetweenRounds.fresh_append (h : BetweenRounds letters pending start (row :: todo) db)
    (rows : PendingRows pending) : ∀ other ∈ todo, other.rowIndex ∉ db.applied ++ [row.rowIndex] := by
  intro other mem noted
  rcases List.mem_append.mp noted with before | now
  · exact h.fresh other (.tail _ mem) before
  · exact (rows.apart h.rest other mem).1 (List.mem_singleton.mp now).symm

theorem BetweenRounds.noted_append (h : BetweenRounds letters pending start (row :: todo) db)
    (users : List SsoUserRecord) : ∃ rows, db.applied ++ [row.rowIndex] = start.applied ++ rows ∧
      (rows = [] → users = start.users) := by
  obtain ⟨rows, isNoted, -⟩ := h.noted
  refine ⟨rows ++ [row.rowIndex], by rw [isNoted, List.append_assoc], fun none => ?_⟩
  exact absurd none (by simp)

theorem BetweenRounds.created (h : BetweenRounds letters pending start (row :: todo) db)
    (validStart : ValidUsers letters start.users) (rows : PendingRows pending)
    (isRow : applied.rowIndex = row.rowIndex) (settled : applied.isPending = false)
    (row_ok : Unconflicted letters (localUserIndex letters (listAllUsers start.users)) row complete seat)
    (create : row.action = some .create) (hash : PasswordHash) :
    BetweenRounds letters pending start todo { db with
      users := db.users ++ [createdUser row complete seat hash]
      applied := db.applied ++ [row.rowIndex]
      plan := db.plan.map (·.setRow applied) } where
  rest := suffix_of_cons h.rest
  valid := by
    have names := (rows.planned row (h.rest.mem (.head _))).name
    have free : getUser row.ssoUser db.users = none := h.index validStart rows ▸ row_ok.create create
    exact h.valid.append free fun c mem => ascii_of_isNameChar (names c mem)
  same other mem := by
    have isNamed : (createdUser row complete seat hash).isNamed row.ssoUser = true := isNamed_self
    have apart := (rows.apart h.rest other mem).2 _ isNamed
    exact (getUser_append_other apart).trans (h.same other (.tail _ mem))
  pool := h.pool
  limit := h.limit
  bound user mem id isId := by
    rcases List.mem_append.mp mem with old | new
    · exact h.bound user old id isId
    · rw [List.mem_singleton.mp new] at isId ⊢
      have nonempty := (completeRow_ghScimId row_ok.isComplete).2.1
      have imported : (createdUser row complete seat hash).boundTo = some complete.ghScimId :=
        boundTo_of_ghScimId rfl nonempty
      exact .inr ⟨row, h.rest.mem (.head _), ⟨complete, seat, row_ok, Option.some.inj (imported.symm.trans isId)⟩,
        isNamed_self⟩
  kept old mem id isId := by
    obtain ⟨user, inUsers, kept⟩ := h.kept old mem id isId
    exact ⟨user, List.mem_append_left _ inUsers, kept⟩
  once := h.once_append
  fresh := h.fresh_append rows
  noted := h.noted_append _
  plan := h.plan_setRow isRow settled

theorem BetweenRounds.updated (h : BetweenRounds letters pending start (row :: todo) db)
    (validStart : ValidUsers letters start.users) (rows : PendingRows pending)
    (isRow : applied.rowIndex = row.rowIndex) (settled : applied.isPending = false)
    (row_ok : Unconflicted letters (localUserIndex letters (listAllUsers start.users)) row complete seat)
    (current : SsoUserRecord) :
    BetweenRounds letters pending start todo { db with
      users := setNamed row.ssoUser (updateOf complete seat current) db.users
      applied := db.applied ++ [row.rowIndex]
      plan := db.plan.map (·.setRow applied) } where
  rest := suffix_of_cons h.rest
  valid := h.valid.setNamed fun _ => rfl
  same other mem :=
    (getUser_setNamed_other (updateOf complete seat current) (fun _ => rfl)
      (rows.apart h.rest other mem).2).trans (h.same other (.tail _ mem))
  pool := h.pool
  limit := h.limit
  bound user mem id isId := by
    obtain ⟨old, inUsers, rfl⟩ := List.mem_map.mp mem
    cases isNamed : old.isNamed row.ssoUser with
    | false =>
        rw [isNamed, if_neg Bool.false_ne_true] at isId
        rw [if_neg Bool.false_ne_true]
        exact h.bound old inUsers id isId
    | true =>
        rw [isNamed, if_pos rfl] at isId
        rw [if_pos rfl]
        have nonempty := (completeRow_ghScimId row_ok.isComplete).2.1
        have imported : (updateOf complete seat current old).boundTo = some complete.ghScimId :=
          boundTo_of_ghScimId rfl nonempty
        exact .inr ⟨row, h.rest.mem (.head _),
          ⟨complete, seat, row_ok, Option.some.inj (imported.symm.trans isId)⟩, isNamed⟩
  kept old mem id isId := by
    obtain ⟨user, inUsers, sameName, isBound⟩ := h.kept old mem id isId
    refine ⟨_, List.mem_map_of_mem inUsers, ?_⟩
    cases isNamed : user.isNamed row.ssoUser with
    | false => exact ⟨sameName, isBound⟩
    | true =>
        have oldNamed : old.isNamed row.ssoUser = true := by
          rw [SsoUserRecord.isNamed, ← sameName]
          exact isNamed
        have found : (localUserIndex letters (listAllUsers start.users)).bySsoUser
            (letters.toLowerCase row.ssoUser) = some old := by
          rw [bySsoUser_eq validStart (rows.planned row (h.rest.mem (.head _))).name]
          exact (getUser_eq_some validStart).mpr ⟨mem, oldNamed⟩
        rw [row_ok.keeps found isId]
        exact ⟨sameName, boundTo_of_ghScimId rfl (completeRow_ghScimId row_ok.isComplete).2.1⟩
  once := h.once_append
  fresh := h.fresh_append rows
  noted := h.noted_append _
  plan := h.plan_setRow isRow settled

theorem applyRound_eq_ok {index : LocalUserIndex}
    (run : applyRound letters eventFails index passwordHashes row db = (.ok ⟨⟩, db')) :
    ∃ applied reached,
      applyPendingRow letters eventFails row index (passwordHashes row.rowIndex) db = (.ok applied, reached) ∧
        db' = { reached with plan := reached.plan.map (·.setRow applied) } := by
  obtain ⟨applied, reached, isRun, rest⟩ := Tx.bind_eq_ok.mp run
  exact ⟨applied, reached, isRun, (Prod.mk.inj rest).2.symm⟩

theorem BetweenRounds.round (validStart : ValidUsers letters start.users) (rows : PendingRows pending)
    (h : BetweenRounds letters pending start (row :: todo) db)
    (run : applyRound letters eventFails (localUserIndex letters (listAllUsers start.users)) passwordHashes row
      db = (.ok ⟨⟩, db')) : BetweenRounds letters pending start todo db' := by
  obtain ⟨applied, reached, isRun, rfl⟩ := applyRound_eq_ok run
  have ends := applyPendingRow_ends letters eventFails _ row (passwordHashes row.rowIndex) db
    (rows.planned row (h.rest.mem (.head _))) (h.index validStart rows)
  rw [isRun] at ends
  cases ends with
  | refused isRow status why =>
      exact h.refused isRow (by rcases status with status | status <;> simp [EmuImportPlanRowRecord.isPending, status])
  | created isRow status current row_ok create hashed room logged =>
      exact h.created validStart rows isRow (by simp [EmuImportPlanRowRecord.isPending, status]) row_ok create _
  | updated isRow status current row_ok update found unmanaged =>
      exact h.updated validStart rows isRow (by simp [EmuImportPlanRowRecord.isPending, status]) row_ok _

/-! ## The transaction -/

/-- What the enterprise's database and its plan are between the calls. -/
structure ValidDb (letters : LowerCase) (db : Db) : Prop where
  users : ValidUsers letters db.users
  once : db.applied.Nodup
  plan : ∀ plan, db.plan = some plan → PlanRows plan.rows ∧
    ∀ row ∈ plan.rows, row.isPending = true → row.rowIndex ∉ db.applied

theorem ValidDb.pendingRows (valid : ValidDb letters db) {plan : EmuImportPlan} (isPlan : db.plan = some plan) :
    PendingRows (plan.rows.filter (·.isPending)) where
  planned row mem := (valid.plan plan isPlan).1.pending row (List.mem_of_mem_filter mem)
    (by simpa using (List.mem_filter.mp mem).2)
  names := List.pairwise_filter.mpr <| (valid.plan plan isPlan).1.names.imp
    fun apart isPending isPending' => apart (by simpa using isPending) (by simpa using isPending')
  indexes := (valid.plan plan isPlan).1.indexes.filter _

theorem ValidDb.betweenRounds (valid : ValidDb letters db) {plan : EmuImportPlan} (isPlan : db.plan = some plan) :
    BetweenRounds letters (plan.rows.filter (·.isPending)) db (plan.rows.filter (·.isPending)) db where
  rest := List.suffix_refl _
  valid := valid.users
  same _ _ := rfl
  pool := rfl
  limit := rfl
  bound user mem id isId := .inl ⟨user, mem, rfl, isId⟩
  kept old mem id isId := ⟨old, mem, rfl, isId⟩
  once := valid.once
  fresh row mem := (valid.plan plan isPlan).2 row (List.mem_of_mem_filter mem)
    (by simpa using (List.mem_filter.mp mem).2)
  noted := ⟨[], (List.append_nil _).symm, fun _ => rfl⟩
  plan := ⟨plan, isPlan, (valid.plan plan isPlan).1.indexes, fun row mem isPending =>
    List.mem_filter.mpr ⟨mem, isPending⟩⟩

theorem applyPendingRows_run {plan : EmuImportPlan} (isPlan : db.plan = some plan) :
    applyPendingRows letters eventFails passwordHashes db =
      ((plan.rows.filter (·.isPending)).forM (applyRound letters eventFails
        (localUserIndex letters (listAllUsers db.users)) passwordHashes) >>= fun _ =>
          markEmuImportPlanApplied) db := by
  have listed : listPendingEmuImportPlanRows db = (.ok (plan.rows.filter (·.isPending)), db) := by
    simp [listPendingEmuImportPlanRows, requireEmuImportPlan, Tx.bind_run, isPlan]
  exact (Tx.bind_ok listed).trans (Tx.bind_ok (Tx.read_run _ _))

theorem applyPendingRows_missing (missing : db.plan = none) :
    applyPendingRows letters eventFails passwordHashes db = (.error .planNotFound, db) := by
  have unlisted : listPendingEmuImportPlanRows db = (.error .planNotFound, db) := by
    simp [listPendingEmuImportPlanRows, requireEmuImportPlan, Tx.bind_run, missing]
  exact Tx.bind_error unlisted

/-- A transaction that returns has had the rounds of all the pending rows. -/
theorem applyPendingRows_ok (valid : ValidDb letters db)
    (run : applyPendingRows letters eventFails passwordHashes db = (.ok (), db')) :
    ∃ plan plan' reached, db.plan = some plan ∧ reached.plan = some plan' ∧
      BetweenRounds letters (plan.rows.filter (·.isPending)) db [] reached ∧
      db' = { reached with plan := some { plan' with status := .applied } } := by
  cases isPlan : db.plan with
  | none => simp [applyPendingRows_missing isPlan] at run
  | some plan =>
      rw [applyPendingRows_run isPlan] at run
      obtain ⟨⟨⟩, reached, rounds, marked⟩ := Tx.bind_eq_ok.mp run
      have ends := Tx.forM_eq_ok (BetweenRounds letters (plan.rows.filter (·.isPending)) db)
        (fun row todo between after h isRun => h.round valid.users (valid.pendingRows isPlan) isRun)
        (valid.betweenRounds isPlan) rounds
      obtain ⟨plan', isPlan', -, -⟩ := ends.plan
      refine ⟨plan, plan', reached, rfl, isPlan', ends, ?_⟩
      rw [← (Prod.mk.inj marked).2]
      simp only [isPlan', Option.map_some]

variable (eventFails passwordHashes) in
/-- What a call of `applyEmuImportPlan` comes to. -/
theorem applyEmuImportPlan_ends (valid : ValidDb letters db) :
    (∃ error, applyEmuImportPlan letters eventFails passwordHashes db = (.error error, db)) ∨
      ∃ plan plan' reached, db.plan = some plan ∧ reached.plan = some plan' ∧
        BetweenRounds letters (plan.rows.filter (·.isPending)) db [] reached ∧
        applyEmuImportPlan letters eventFails passwordHashes db =
          (.ok { plan' with status := .applied },
            { reached with plan := some { plan' with status := .applied } }) := by
  rw [applyEmuImportPlan, Tx.bind_run]
  rcases run : Tx.transaction rollback (applyPendingRows letters eventFails passwordHashes) db with ⟨_ | _, db'⟩
  · obtain ⟨_, _, rfl⟩ := Tx.transaction_eq_error run
    exact .inl ⟨_, rfl⟩
  · obtain ⟨plan, plan', reached, isPlan, isPlan', ends, rfl⟩ :=
      applyPendingRows_ok valid (Tx.transaction_eq_ok.mp run)
    exact .inr ⟨plan, plan', reached, isPlan, isPlan', ends, by
      simp [requireEmuImportPlan, Tx.bind_run]⟩

end Rounds

end GhcpConsole.EmuImport
