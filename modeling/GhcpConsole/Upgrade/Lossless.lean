import GhcpConsole.Lib.Table
import GhcpConsole.Lib.Tx
import GhcpConsole.Upgrade.SqliteToMysql

/-!
# What the copy keeps

Every column of a source row can be read back from the target exactly where the row has nothing that
the copy drops: caller and lease ids, values of further columns, times that are not in the form the Proxy
writes, spaces at the end of an attempt id. Pool members are not copied at all.
-/

namespace GhcpConsole.Upgrade

/-! ## Columns -/

/-- What the Proxy makes of a stored time. -/
def mysqlTimestampToIso (stored : String) : String :=
  String.ofList (replaceFirst ' ' 'T' stored.toList ++ ['Z'])

def isIso (text : String) : Bool := fits isoForm text.toList

section Columns

variable {server : Server} {text stored : String}

/-- The part of a time before and after the separator. -/
theorem fits_datetime (sep : Char) {l : List Char}
    (h : fits ([none, none, none, none, some '-', none, none, some '-', none, none] ++ some sep ::
      [none, none, some ':', none, none, some ':', none, none, some '.', none, none, none]) l = true) :
    ∃ day time, l = day ++ sep :: time ∧ day.length = 10 ∧ time.length = 12
      ∧ fits [none, none, none, none, some '-', none, none, some '-', none, none] day = true
      ∧ fits [none, none, some ':', none, none, some ':', none, none, some '.', none, none, none] time
        = true := by
  obtain ⟨day, rest, rfl, hday, hrest⟩ := fits_append.mp h
  rw [← List.singleton_append] at hrest
  obtain ⟨s, time, rfl, hs, htime⟩ := fits_append.mp hrest
  obtain rfl := fits_singleton.mp hs
  exact ⟨day, time, rfl, fits_length hday, fits_length htime, hday, htime⟩

/-- A stored time is read back in the form the Proxy writes. -/
theorem mysqlTimestampToIso_isIso (h : fits datetimeForm stored.toList = true) :
    isIso (mysqlTimestampToIso stored) = true := by
  obtain ⟨day, time, hl, -, -, hday, htime⟩ := fits_datetime ' ' h
  have hspace : ' ' ∉ day := fits_not_mem hday rfl (by decide)
  unfold isIso mysqlTimestampToIso
  rw [String.toList_ofList, hl, replaceFirst_append hspace]
  refine fits_append.mpr ⟨day ++ 'T' :: time, ['Z'], rfl, ?_, rfl⟩
  exact fits_append.mpr ⟨day, 'T' :: time, rfl, hday, by simpa [fits] using htime⟩

/-- A time in that form survives. -/
theorem mysqlTimestamp_isIso (h : isIso text = true) :
    ∃ sql, mysqlTimestamp (some text) = some sql ∧ fits datetimeForm sql.toList = true
      ∧ mysqlTimestampToIso sql = text := by
  obtain ⟨front, z, hl, hfront, hz⟩ := fits_append.mp h
  obtain rfl := fits_singleton.mp hz
  obtain ⟨day, time, rfl, hdayLength, htimeLength, hday, htime⟩ := fits_datetime 'T' hfront
  have hT : 'T' ∉ day := fits_not_mem hday rfl (by decide)
  have hspace : ' ' ∉ day := fits_not_mem hday rfl (by decide)
  have hne : text ≠ "" := by
    rintro rfl
    simp at hl
  have htake : text.toList.take 23 = day ++ 'T' :: time := by
    rw [hl]
    exact List.take_left' (by simp [hdayLength, htimeLength])
  refine ⟨String.ofList (day ++ ' ' :: time), ?_, ?_, ?_⟩
  · simp only [mysqlTimestamp, if_neg hne, htake, replaceFirst_append hT]
  · rw [String.toList_ofList]
    exact fits_append.mpr ⟨day, ' ' :: time, rfl, hday, by simpa [fits] using htime⟩
  · unfold mysqlTimestampToIso
    rw [String.toList_ofList, replaceFirst_append hspace, ← String.ofList_toList (s := text), hl]

/-- Every stored time is read back in the form the Proxy writes. -/
theorem storeDatetime_isIso {value : Option String}
    (h : server.storeDatetime value = .ok (some stored)) :
    isIso (mysqlTimestampToIso stored) = true := by
  cases value with
  | none => cases h
  | some sql =>
      simp only [Server.storeDatetime] at h
      split at h
      · rename_i stored' hstored
        obtain rfl : stored' = stored := Option.some.inj (Except.ok.inj h)
        exact mysqlTimestampToIso_isIso (server.datetime_form sql stored' hstored)
      · cases h

/-- A time in that form is read back as it was. -/
theorem storeDatetime_keeps {value : Option String} (hiso : isIso text = true)
    (h : server.storeDatetime (mysqlTimestamp (some text)) = .ok value) :
    value.map mysqlTimestampToIso = some text := by
  obtain ⟨sql, hsql, hform, hback⟩ := mysqlTimestamp_isIso hiso
  simp only [hsql, Server.storeDatetime] at h
  split at h
  · rename_i stored hstored
    obtain rfl := Except.ok.inj h
    obtain rfl := server.datetime_keeps sql stored hstored hform
    rw [Option.map_some, hback]
  · cases h

theorem mysqlChar_idem (text : String) : mysqlChar (mysqlChar text) = mysqlChar text := by
  unfold mysqlChar
  rw [String.toList_ofList, List.rdropWhile_idempotent]

end Columns

/-! ## Rows -/

/-- A value of the source that is there is there in the target. -/
def Kept {α : Type} (value stored : Option α) : Prop := ∀ v, value = some v → stored = some v

structure AccountRecovered (row : SqliteAccountRow) (stored : MysqlAccountRow) : Prop where
  identity : stored.identity = row.identity
  ssoUser : stored.ssoUser = row.ssoUser
  ghLogin : Kept row.ghLogin stored.ghLogin
  copilotOauthToken : Kept row.copilotOauthToken stored.copilotOauthToken
  copilotOauthStatus : stored.copilotOauthStatus = row.copilotOauthStatus
  copilotOauthUpdatedAt :
    Kept row.copilotOauthUpdatedAt (stored.copilotOauthUpdatedAt.map mysqlTimestampToIso)
  copilotOauthAttemptId : Kept row.copilotOauthAttemptId stored.copilotOauthAttemptId
  createdAt : mysqlTimestampToIso stored.createdAt = row.createdAt
  updatedAt : mysqlTimestampToIso stored.updatedAt = row.updatedAt
  enterpriseId : Kept row.enterpriseId (some stored.enterpriseId)
  further : ∀ entry ∈ row.further, entry ∈ stored.further

structure StatRecovered (row : SqliteStatRow) (stored : MysqlStatRow) : Prop where
  id : stored.id = row.id
  identity : stored.identity = row.identity
  ghLogin : Kept row.ghLogin stored.ghLogin
  requestedAt : mysqlTimestampToIso stored.requestedAt = row.requestedAt
  path : stored.path = row.path
  model : Kept row.model stored.model
  success : stored.success = row.success
  failureReason : Kept row.failureReason stored.failureReason
  inputTokens : Kept row.inputTokens stored.inputTokens
  outputTokens : Kept row.outputTokens stored.outputTokens
  cacheTokens : Kept row.cacheTokens stored.cacheTokens
  cacheInputTokens : Kept row.cacheInputTokens stored.cacheInputTokens
  cacheWriteTokens : Kept row.cacheWriteTokens stored.cacheWriteTokens
  callerId : Kept row.callerId stored.callerId
  leaseId : Kept row.leaseId stored.leaseId
  enterpriseId : Kept row.enterpriseId (some stored.enterpriseId)
  further : ∀ entry ∈ row.further, entry ∈ stored.further

/-- The copy of an account row says everything the row says. -/
def SqliteAccountRow.portable (row : SqliteAccountRow) : Bool :=
  row.copilotOauthUpdatedAt.all isIso && row.copilotOauthAttemptId.all (fun id => mysqlChar id = id)
    && isIso row.createdAt && isIso row.updatedAt && row.further.isEmpty

def SqliteStatRow.portable (row : SqliteStatRow) : Bool :=
  isIso row.requestedAt && row.callerId.isNone && row.leaseId.isNone && row.further.isEmpty

/-- A row of the default enterprise, or one from before there were enterprises. -/
def inDefault (enterpriseId : Option String) : Prop :=
  Kept enterpriseId (some defaultEnterpriseId)

section Rows

variable {server : Server} {target target' : Target}

/-- What a stored account row is made of. -/
structure AccountStored (server : Server) (row : SqliteAccountRow) (stored : MysqlAccountRow) :
    Prop where
  oauthUpdatedAt : server.storeDatetime (mysqlTimestamp row.copilotOauthUpdatedAt)
    = .ok stored.copilotOauthUpdatedAt
  createdAt : server.storeDatetime (mysqlTimestamp (some row.createdAt)) = .ok (some stored.createdAt)
  updatedAt : server.storeDatetime (mysqlTimestamp (some row.updatedAt)) = .ok (some stored.updatedAt)
  enterpriseId : row.enterpriseId = some stored.enterpriseId
  rest : stored = {
    identity := row.identity, ssoUser := row.ssoUser, ghLogin := row.ghLogin
    copilotOauthToken := row.copilotOauthToken, copilotOauthStatus := row.copilotOauthStatus
    copilotOauthUpdatedAt := stored.copilotOauthUpdatedAt
    copilotOauthAttemptId := row.copilotOauthAttemptId.map mysqlChar
    createdAt := stored.createdAt, updatedAt := stored.updatedAt
    enterpriseId := stored.enterpriseId, further := [] }

structure StatStored (server : Server) (row : SqliteStatRow) (stored : MysqlStatRow) : Prop where
  requestedAt : server.storeDatetime (mysqlTimestamp (some row.requestedAt))
    = .ok (some stored.requestedAt)
  enterpriseId : row.enterpriseId = some stored.enterpriseId
  rest : stored = {
    id := row.id, identity := row.identity, ghLogin := row.ghLogin
    requestedAt := stored.requestedAt, path := row.path, model := row.model, success := row.success
    failureReason := row.failureReason, inputTokens := row.inputTokens
    outputTokens := row.outputTokens, cacheTokens := row.cacheTokens
    cacheInputTokens := row.cacheInputTokens, cacheWriteTokens := row.cacheWriteTokens
    callerId := none, leaseId := none, enterpriseId := stored.enterpriseId, further := [] }

theorem notNull_eq_ok {α : Type} {value : Option α} {a : α} :
    notNull value = .ok a ↔ value = some a := by
  cases value <;> simp [notNull]

theorem insertAccount_ok {row : SqliteAccountRow} (h : insertAccount server target row = .ok target') :
    ∃ stored, AccountStored server row stored ∧ target'.accounts = target.accounts ++ [stored]
      ∧ target'.requestStats = target.requestStats ∧ target'.poolMembers = target.poolMembers := by
  simp only [insertAccount, except_bind_eq_ok, notNull_eq_ok] at h
  obtain ⟨oauthUpdatedAt, hoauth, _, hcreated, _, hupdated, createdAt, rfl, updatedAt, rfl,
    enterpriseId, henterprise, h⟩ := h
  split at h
  · obtain rfl := Except.ok.inj h
    exact ⟨_, ⟨hoauth, hcreated, hupdated, henterprise, rfl⟩, rfl, rfl, rfl⟩
  · cases h

theorem insertStat_ok {row : SqliteStatRow} (h : insertStat server target row = .ok target') :
    ∃ stored, StatStored server row stored
      ∧ target'.requestStats = target.requestStats ++ [stored]
      ∧ target'.accounts = target.accounts ∧ target'.poolMembers = target.poolMembers := by
  simp only [insertStat, except_bind_eq_ok, notNull_eq_ok] at h
  obtain ⟨_, hrequested, requestedAt, rfl, enterpriseId, henterprise, h⟩ := h
  split at h
  · obtain rfl := Except.ok.inj h
    exact ⟨_, ⟨hrequested, henterprise, rfl⟩, rfl, rfl, rfl⟩
  · cases h

/-- A row that is kept has nothing in columns that are empty in the target. -/
theorem nothing_further {columns stored : List (String × SqliteValue)}
    (h : ∀ entry ∈ columns, entry ∈ stored) (hstored : stored = []) : columns.isEmpty = true := by
  rw [List.isEmpty_iff, List.eq_nil_iff_forall_not_mem]
  exact fun entry hentry => List.not_mem_nil (hstored ▸ h entry hentry)

/-- Whatever row it was made of, a stored row is only the copy of portable ones. -/
theorem AccountRecovered.portable {row made : SqliteAccountRow} {stored : MysqlAccountRow}
    (hstored : AccountStored server made stored) (h : AccountRecovered row stored) :
    row.portable = true := by
  have hcreated := h.createdAt ▸ storeDatetime_isIso hstored.createdAt
  have hupdated := h.updatedAt ▸ storeDatetime_isIso hstored.updatedAt
  have hoauth : row.copilotOauthUpdatedAt.all isIso = true := by
    rw [Option.all_eq_true]
    intro text htext
    obtain ⟨sql, hsql, rfl⟩ := Option.map_eq_some_iff.mp (h.copilotOauthUpdatedAt text htext)
    exact storeDatetime_isIso (hsql ▸ hstored.oauthUpdatedAt)
  have hattempt : row.copilotOauthAttemptId.all (fun id => mysqlChar id = id) = true := by
    rw [Option.all_eq_true]
    intro id hid
    have hkept := h.copilotOauthAttemptId id hid
    rw [hstored.rest] at hkept
    obtain ⟨text, -, rfl⟩ := Option.map_eq_some_iff.mp hkept
    exact decide_eq_true (mysqlChar_idem text)
  have hfurther := nothing_further h.further (congrArg (·.further) hstored.rest)
  simp only [SqliteAccountRow.portable, hoauth, hattempt, hcreated, hupdated, hfurther, Bool.and_self]

theorem AccountStored.recovered {row : SqliteAccountRow} {stored : MysqlAccountRow}
    (h : AccountStored server row.assignDefault stored) (hdefault : inDefault row.enterpriseId)
    (hportable : row.portable = true) : AccountRecovered row stored := by
  simp only [SqliteAccountRow.portable, Bool.and_eq_true, List.isEmpty_iff] at hportable
  obtain ⟨⟨⟨⟨hoauth, hattempt⟩, hcreated⟩, hupdated⟩, hfurther⟩ := hportable
  have hrest := h.rest
  refine {
    identity := congrArg (·.identity) hrest
    ssoUser := congrArg (·.ssoUser) hrest
    ghLogin := fun v hv => (congrArg (·.ghLogin) hrest).trans hv
    copilotOauthToken := fun v hv => (congrArg (·.copilotOauthToken) hrest).trans hv
    copilotOauthStatus := congrArg (·.copilotOauthStatus) hrest
    copilotOauthUpdatedAt := ?_
    copilotOauthAttemptId := ?_
    createdAt := Option.some.inj (storeDatetime_keeps hcreated h.createdAt)
    updatedAt := Option.some.inj (storeDatetime_keeps hupdated h.updatedAt)
    enterpriseId := fun v hv => (hdefault v hv).symm ▸ h.enterpriseId.symm
    further := by simp [hfurther] }
  · intro text htext
    have hstored := h.oauthUpdatedAt
    rw [show row.assignDefault.copilotOauthUpdatedAt = some text from htext] at hstored
    exact storeDatetime_keeps ((Option.all_eq_true _ _).mp hoauth text htext) hstored
  · intro id hid
    have hsame := of_decide_eq_true ((Option.all_eq_true _ _).mp hattempt id hid)
    have hcolumn := congrArg (·.copilotOauthAttemptId) hrest
    simpa only [SqliteAccountRow.assignDefault, hid, Option.map_some, hsame] using hcolumn

theorem StatRecovered.portable {row made : SqliteStatRow} {stored : MysqlStatRow}
    (hstored : StatStored server made stored) (h : StatRecovered row stored) :
    row.portable = true := by
  have hrequested := h.requestedAt ▸ storeDatetime_isIso hstored.requestedAt
  have hdropped : ∀ {value kept : Option String}, Kept value kept → kept = none →
      value.isNone = true := by
    intro value kept hkept hnone
    cases value with
    | none => rfl
    | some v => exact absurd (hkept v rfl) (by rw [hnone]; simp)
  have hcaller := hdropped h.callerId (congrArg (·.callerId) hstored.rest)
  have hlease := hdropped h.leaseId (congrArg (·.leaseId) hstored.rest)
  have hfurther := nothing_further h.further (congrArg (·.further) hstored.rest)
  simp only [SqliteStatRow.portable, hrequested, hcaller, hlease, hfurther, Bool.and_self]

theorem StatStored.recovered {row : SqliteStatRow} {stored : MysqlStatRow}
    (h : StatStored server row.assignDefault stored) (hdefault : inDefault row.enterpriseId)
    (hportable : row.portable = true) : StatRecovered row stored := by
  simp only [SqliteStatRow.portable, Bool.and_eq_true, Option.isNone_iff_eq_none,
    List.isEmpty_iff] at hportable
  obtain ⟨⟨⟨hrequested, hcaller⟩, hlease⟩, hfurther⟩ := hportable
  have hrest := h.rest
  exact {
    id := congrArg (·.id) hrest
    identity := congrArg (·.identity) hrest
    ghLogin := fun v hv => (congrArg (·.ghLogin) hrest).trans hv
    requestedAt := Option.some.inj (storeDatetime_keeps hrequested h.requestedAt)
    path := congrArg (·.path) hrest
    model := fun v hv => (congrArg (·.model) hrest).trans hv
    success := congrArg (·.success) hrest
    failureReason := fun v hv => (congrArg (·.failureReason) hrest).trans hv
    inputTokens := fun v hv => (congrArg (·.inputTokens) hrest).trans hv
    outputTokens := fun v hv => (congrArg (·.outputTokens) hrest).trans hv
    cacheTokens := fun v hv => (congrArg (·.cacheTokens) hrest).trans hv
    cacheInputTokens := fun v hv => (congrArg (·.cacheInputTokens) hrest).trans hv
    cacheWriteTokens := fun v hv => (congrArg (·.cacheWriteTokens) hrest).trans hv
    callerId := fun v hv => by simp [hcaller] at hv
    leaseId := fun v hv => by simp [hlease] at hv
    enterpriseId := fun v hv => (hdefault v hv).symm ▸ h.enterpriseId.symm
    further := by simp [hfurther] }

end Rows

/-! ## The copy -/

section Copy

variable {server : Server} {source : Source} {seed : EnterpriseSeed} {data : SourceData}
variable {target target' : Target}

theorem take_flatten {α : Type} (n : Nat) (l : List α) (k : Nat) :
    ((List.range k).map fun i => (l.drop (n * i)).take n).flatten = l.take (n * k) := by
  induction k with
  | zero => simp
  | succ k ih =>
      rw [List.range_succ, List.map_append, List.flatten_append, ih, Nat.mul_succ, List.take_add]
      simp

/-- The batches are the rows. -/
theorem batches_flatten {α : Type} (rows : List α) : (batches rows).flatten = rows := by
  unfold batches
  rw [take_flatten]
  refine List.take_of_length_le ?_
  have hpos : 0 < copyBatchSize := by decide
  have hdiv := Nat.div_add_mod (rows.length + (copyBatchSize - 1)) copyBatchSize
  have hmod := Nat.mod_lt (rows.length + (copyBatchSize - 1)) hpos
  omega

theorem foldlM_flatten {σ α ε : Type} {f : σ → α → Except ε σ} (batches : List (List α)) (s : σ) :
    batches.foldlM (fun s batch => batch.foldlM f s) s = batches.flatten.foldlM f s := by
  induction batches generalizing s with
  | nil => rfl
  | cons batch batches ih =>
      rw [List.flatten_cons, List.foldlM_append, List.foldlM_cons]
      exact bind_congr ih

/-- Inserting row after row, where each insert adds its row to `out` and leaves `keep` alone. -/
theorem foldlM_insert {σ α β γ ε : Type} {f : σ → α → Except ε σ} (out : σ → List β) (keep : σ → γ)
    {R : α → β → Prop}
    (hf : ∀ {s row s'}, f s row = .ok s' →
      ∃ stored, R row stored ∧ out s' = out s ++ [stored] ∧ keep s' = keep s)
    {rows : List α} {s s' : σ} (h : rows.foldlM f s = .ok s') :
    ∃ storeds, List.Forall₂ R rows storeds ∧ out s' = out s ++ storeds ∧ keep s' = keep s := by
  induction rows generalizing s with
  | nil =>
      obtain rfl := Except.ok.inj h
      exact ⟨[], .nil, (List.append_nil _).symm, rfl⟩
  | cons row rows ih =>
      rw [List.foldlM_cons, except_bind_eq_ok] at h
      obtain ⟨mid, hrow, hrows⟩ := h
      obtain ⟨stored, hstored, hout, hkeep⟩ := hf hrow
      obtain ⟨storeds, hstoreds, hout', hkeep'⟩ := ih hrows
      refine ⟨stored :: storeds, .cons hstored hstoreds, ?_, hkeep'.trans hkeep⟩
      rw [hout', hout, List.append_assoc, List.singleton_append]

theorem copyAccounts_ok {rows : List SqliteAccountRow}
    (h : copyAccounts server target rows = .ok target') :
    ∃ storeds, List.Forall₂ (AccountStored server) rows storeds
      ∧ target'.accounts = target.accounts ++ storeds
      ∧ target'.requestStats = target.requestStats ∧ target'.poolMembers = target.poolMembers := by
  unfold copyAccounts at h
  rw [foldlM_flatten, batches_flatten] at h
  obtain ⟨storeds, hstoreds, hout, hkeep⟩ :=
    foldlM_insert (·.accounts) (fun t => (t.requestStats, t.poolMembers))
      (fun hrow => by
        obtain ⟨stored, hstored, hout, hstats, hmembers⟩ := insertAccount_ok hrow
        exact ⟨stored, hstored, hout, Prod.ext hstats hmembers⟩) h
  exact ⟨storeds, hstoreds, hout, congrArg Prod.fst hkeep, congrArg Prod.snd hkeep⟩

theorem copyRequestStats_ok {rows : List SqliteStatRow}
    (h : copyRequestStats server target rows = .ok target') :
    ∃ storeds, List.Forall₂ (StatStored server) rows storeds
      ∧ target'.requestStats = target.requestStats ++ storeds
      ∧ target'.accounts = target.accounts ∧ target'.poolMembers = target.poolMembers := by
  unfold copyRequestStats at h
  rw [foldlM_flatten, batches_flatten] at h
  obtain ⟨storeds, hstoreds, hout, hkeep⟩ :=
    foldlM_insert (·.requestStats) (fun t => (t.accounts, t.poolMembers))
      (fun hrow => by
        obtain ⟨stored, hstored, hout, haccounts, hmembers⟩ := insertStat_ok hrow
        exact ⟨stored, hstored, hout, Prod.ext haccounts hmembers⟩) h
  exact ⟨storeds, hstoreds, hout, congrArg Prod.fst hkeep, congrArg Prod.snd hkeep⟩

end Copy

/-! ## The tool -/

def Source.accountRows (source : Source) : List SqliteAccountRow := source.accounts.elim [] (·.rows)

def Source.statRows (source : Source) : List SqliteStatRow := source.requestStats.elim [] (·.rows)

/-- Every column of every row that is not null, and every pool membership, is in the target. -/
structure Lossless (source : Source) (target : Target) : Prop where
  accounts : ∀ row ∈ source.accountRows, ∃ stored ∈ target.accounts, AccountRecovered row stored
  requestStats : ∀ row ∈ source.statRows, ∃ stored ∈ target.requestStats, StatRecovered row stored
  poolMembers : ∀ identity ∈ source.poolMembers, identity ∈ target.poolMembers

/-- Nothing in the source is lost in a copy. -/
def Source.portable (source : Source) : Bool :=
  source.accountRows.all (·.portable) && source.statRows.all (·.portable)
    && source.poolMembers.isEmpty

/-- What the tool promises about a source, for every server and target. -/
structure LosslessOrRefuses (source : Source) (deploymentSeed : Except String EnterpriseSeed) :
    Prop where
  lossless : ∀ {server : Server} {target target' : Target} {result : MigrationResult},
    migrateSqliteToMysql server source deploymentSeed false target = (.ok result, target') →
    Lossless source target'
  refuses : source.portable = false → ∀ (server : Server) (target : Target), ∃ e,
    migrateSqliteToMysql server source deploymentSeed false target = (.error e, target)

section Tool

variable {server : Server} {source : Source} {seed : EnterpriseSeed} {data : SourceData}
variable {target target' : Target} {deploymentSeed : Except String EnterpriseSeed}
variable {result : MigrationResult}

theorem sourceShape_single (h : sourceShape source = .ok .singleEnterprise) :
    "enterprise_id" ∉ sqliteColumns source.accounts
      ∧ "enterprise_id" ∉ sqliteColumns source.requestStats := by
  unfold sourceShape at h
  simp only at h
  split at h
  · simp_all
  · split at h
    · rw [except_bind_eq_ok] at h
      obtain ⟨-, -, h⟩ := h
      cases h
    · cases h

theorem requireDefaultRows_ok {ids : List (Option String)} {table : String}
    (h : requireDefaultRows ids table = .ok ()) : ∀ id ∈ ids, id = some defaultEnterpriseId := by
  unfold requireDefaultRows at h
  simp only at h
  split at h
  · rename_i hnone
    rw [List.length_eq_zero_iff, List.filter_eq_nil_iff] at hnone
    intro id hid
    simpa using hnone id hid
  · cases h

/-- Every accepted row belongs to the default enterprise. -/
structure Accepted (source : Source) (data : SourceData) : Prop where
  accounts : data.accounts = source.accountRows.map (·.assignDefault)
  requestStats : data.requestStats = source.statRows.map (·.assignDefault)
  account_default : ∀ row ∈ source.accountRows, inDefault row.enterpriseId
  stat_default : ∀ row ∈ source.statRows, inDefault row.enterpriseId

theorem readSource_single (h : sourceShape source = .ok .singleEnterprise) :
    (∀ row ∈ source.accountRows, row.enterpriseId = none)
      ∧ ∀ row ∈ source.statRows, row.enterpriseId = none := by
  obtain ⟨haccounts, hstats⟩ := sourceShape_single h
  constructor
  · intro row hrow
    unfold Source.accountRows at hrow
    cases htable : source.accounts with
    | none => simp [htable] at hrow
    | some table =>
        rw [htable] at hrow haccounts
        exact source.account_enterprise table htable haccounts row hrow
  · intro row hrow
    unfold Source.statRows at hrow
    cases htable : source.requestStats with
    | none => simp [htable] at hrow
    | some table =>
        rw [htable] at hrow hstats
        exact source.stat_enterprise table htable hstats row hrow

theorem readSource_ok (h : readSource source seed = .ok data) : Accepted source data := by
  simp only [readSource, except_bind_eq_ok] at h
  obtain ⟨-, -, -, -, shape, hshape, h⟩ := h
  cases shape with
  | singleEnterprise =>
      obtain rfl := Except.ok.inj h
      obtain ⟨haccounts, hstats⟩ := readSource_single hshape
      exact {
        accounts := rfl
        requestStats := rfl
        account_default := fun row hrow v hv => by simp [haccounts row hrow] at hv
        stat_default := fun row hrow v hv => by simp [hstats row hrow] at hv }
  | multiEnterprise =>
      simp only [except_bind_eq_ok] at h
      obtain ⟨_, haccounts, _, hstats, enterprise, -, h⟩ := h
      obtain rfl := Except.ok.inj h
      have haccount : ∀ row ∈ source.accountRows, row.enterpriseId = some defaultEnterpriseId :=
        fun row hrow => requireDefaultRows_ok haccounts _ (List.mem_map_of_mem hrow)
      have hstat : ∀ row ∈ source.statRows, row.enterpriseId = some defaultEnterpriseId :=
        fun row hrow => requireDefaultRows_ok hstats _ (List.mem_map_of_mem hrow)
      have hsame : source.accountRows.map (·.assignDefault) = source.accountRows := by
        refine (List.map_congr_left fun row hrow => ?_).trans (List.map_id _)
        rw [SqliteAccountRow.assignDefault, ← haccount row hrow]
        rfl
      have hsame' : source.statRows.map (·.assignDefault) = source.statRows := by
        refine (List.map_congr_left fun row hrow => ?_).trans (List.map_id _)
        rw [SqliteStatRow.assignDefault, ← hstat row hrow]
        rfl
      exact {
        accounts := hsame.symm
        requestStats := hsame'.symm
        account_default := fun row hrow v hv => (haccount row hrow).symm.trans hv
        stat_default := fun row hrow v hv => (hstat row hrow).symm.trans hv }

/-- What a committed copy holds. -/
structure Copied (server : Server) (data : SourceData) (target : Target) : Prop where
  accounts : List.Forall₂ (AccountStored server) data.accounts target.accounts
  requestStats : List.Forall₂ (StatStored server) data.requestStats target.requestStats
  poolMembers : target.poolMembers = []

theorem copyEnterprise_ok {enterprise : EnterpriseRow}
    (h : copyEnterprise server target enterprise = .ok target') :
    target'.accounts = target.accounts ∧ target'.requestStats = target.requestStats
      ∧ target'.poolMembers = target.poolMembers := by
  simp only [copyEnterprise] at h
  split at h
  · obtain rfl := Except.ok.inj h
    exact ⟨rfl, rfl, rfl⟩
  · cases h

theorem requireEmptyTarget_ok (htables : (inspectTarget target).tablesExist = true)
    (h : requireEmptyTarget (inspectTarget target) = .ok ()) :
    target.accounts = [] ∧ target.requestStats = [] ∧ target.poolMembers = [] := by
  unfold requireEmptyTarget at h
  split at h
  · rename_i hempty
    unfold inspectTarget at hempty htables
    split at htables
    · rename_i hexists
      rw [if_pos hexists] at hempty
      have haccounts : target.accounts = [] := List.length_eq_zero_iff.mp hempty.1
      refine ⟨haccounts, List.length_eq_zero_iff.mp hempty.2.1, ?_⟩
      rw [List.eq_nil_iff_forall_not_mem]
      intro identity hid
      obtain ⟨row, hrow, -⟩ := target.member_account identity hid
      rw [haccounts] at hrow
      exact absurd hrow List.not_mem_nil
    · cases htables
  · cases h

theorem copyAll_ok (hempty : target.accounts = [] ∧ target.requestStats = [] ∧ target.poolMembers = [])
    (h : copyAll server seed data target = .ok target') : Copied server data target' := by
  simp only [copyAll, except_bind_eq_ok] at h
  obtain ⟨seeded, hseeded, withAccounts, haccounts, copied, hstats, _, -, _, -, h⟩ := h
  obtain rfl := Except.ok.inj h
  have hkept : seeded.accounts = [] ∧ seeded.requestStats = [] ∧ seeded.poolMembers = [] := by
    split at hseeded
    · obtain ⟨h₁, h₂, h₃⟩ := copyEnterprise_ok hseeded
      exact ⟨h₁.trans hempty.1, h₂.trans hempty.2.1, h₃.trans hempty.2.2⟩
    · obtain rfl := Except.ok.inj hseeded
      exact hempty
  obtain ⟨accounts, haccounts, hout, hkeep, hmembers⟩ := copyAccounts_ok haccounts
  obtain ⟨stats, hstats, hout', hkeep', hmembers'⟩ := copyRequestStats_ok hstats
  rw [hkept.1, List.nil_append] at hout
  rw [hkeep, hkept.2.1, List.nil_append] at hout'
  exact {
    accounts := by rw [hkeep', hout]; exact haccounts
    requestStats := by rw [hout']; exact hstats
    poolMembers := by rw [hmembers', hmembers, hkept.2.2] }

theorem migrateSqliteToMysql_ok
    (h : migrateSqliteToMysql server source deploymentSeed false target = (.ok result, target')) :
    ∃ data, Accepted source data ∧ Copied server data target' := by
  simp only [migrateSqliteToMysql] at h
  split at h
  · cases h
  · rename_i seed data hpreflight
    simp only [except_bind_eq_ok] at hpreflight
    obtain ⟨seed', -, data', hdata, _, -, heq⟩ := hpreflight
    obtain ⟨rfl, rfl⟩ := Prod.mk.inj (Except.ok.inj heq)
    refine ⟨data', readSource_ok hdata, ?_⟩
    rw [if_neg Bool.false_ne_true] at h
    split at h
    · cases h
    · rename_i migrated hmigrated
      split at h
      · cases h
      · rename_i hchecked
        split at hchecked
        · cases hchecked
        · rename_i htables
          split at h
          · cases h
          · rename_i copied hcopied
            obtain ⟨-, rfl⟩ := Prod.mk.inj h
            simp only [Bool.not_eq_true, Bool.not_eq_false'] at htables
            exact copyAll_ok (requireEmptyTarget_ok htables hchecked) hcopied

/-- A copy lost nothing exactly where the source is portable. -/
theorem lossless_iff
    (h : migrateSqliteToMysql server source deploymentSeed false target = (.ok result, target')) :
    Lossless source target' ↔ source.portable = true := by
  obtain ⟨data, haccepted, hcopied⟩ := migrateSqliteToMysql_ok h
  have haccounts := haccepted.accounts ▸ hcopied.accounts
  have hstats := haccepted.requestStats ▸ hcopied.requestStats
  rw [List.forall₂_map_left_iff] at haccounts hstats
  simp only [Source.portable, Bool.and_eq_true, List.all_eq_true, List.isEmpty_iff]
  constructor
  · intro hlossless
    refine ⟨⟨fun row hrow => ?_, fun row hrow => ?_⟩, ?_⟩
    · obtain ⟨stored, hstored, hrecovered⟩ := hlossless.accounts row hrow
      obtain ⟨made, -, hmade⟩ := forall₂_mem_right haccounts hstored
      exact hrecovered.portable hmade
    · obtain ⟨stored, hstored, hrecovered⟩ := hlossless.requestStats row hrow
      obtain ⟨made, -, hmade⟩ := forall₂_mem_right hstats hstored
      exact hrecovered.portable hmade
    · rw [List.eq_nil_iff_forall_not_mem]
      intro identity hid
      have hmember := hlossless.poolMembers identity hid
      rw [hcopied.poolMembers] at hmember
      exact absurd hmember List.not_mem_nil
  · rintro ⟨⟨haccount, hstat⟩, hmembers⟩
    refine {
      accounts := fun row hrow => ?_
      requestStats := fun row hrow => ?_
      poolMembers := fun identity hid => ?_ }
    · obtain ⟨stored, hstored, hcopy⟩ := forall₂_mem_left haccounts hrow
      exact ⟨stored, hstored, hcopy.recovered (haccepted.account_default row hrow) (haccount row hrow)⟩
    · obtain ⟨stored, hstored, hcopy⟩ := forall₂_mem_left hstats hrow
      exact ⟨stored, hstored, hcopy.recovered (haccepted.stat_default row hrow) (hstat row hrow)⟩
    · rw [hmembers] at hid
      exact absurd hid List.not_mem_nil

/-- The preflight of the source refuses it. -/
def Refused (source : Source) (deploymentSeed : Except String EnterpriseSeed) : Prop :=
  ∃ e, deploymentSeed >>= readSource source = .error e

theorem migrateSqliteToMysql_refused (h : Refused source deploymentSeed) :
    ∃ e, migrateSqliteToMysql server source deploymentSeed false target = (.error e, target) := by
  obtain ⟨e, he⟩ := h
  refine ⟨e, ?_⟩
  cases deploymentSeed with
  | error e' =>
      obtain rfl : e' = e := Except.error.inj he
      rfl
  | ok seed =>
      have hread : readSource source seed = .error e := he
      simp only [migrateSqliteToMysql, bind, Except.bind, hread]

end Tool

/-- A server whose columns hold every value, on a database without the Proxy's tables. -/
def plainServer : Server where
  version := "8.0.36"
  runMysqlMigrations seed target :=
    (.ok (), { target with
      tables := true
      enterprises := [{
        id := defaultEnterpriseId, state := "active", maxAccounts := seed.maxAccounts
        inventoryCount := 0, policyVersion := 1, profileFingerprint := seed.fingerprint
        createdAt := 0, updatedAt := 0 }] })
  datetime text := if fits datetimeForm text.toList then some text else none
  datetime_form text stored h := by
    split at h
    · rename_i hform
      obtain rfl := Option.some.inj h
      exact hform
    · cases h
  datetime_keeps text stored h hform := by
    rw [if_pos hform] at h
    exact (Option.some.inj h).symm
  admitsAccount _ _ := true
  admitsStat _ _ := true
  admitsEnterprise _ := true

def newTarget : Target where
  tables := false
  accounts := []
  requestStats := []
  enterprises := []
  poolMembers := []
  member_account := by simp

/-- Once the preflight has passed, the tables are made, whatever becomes of the copy. -/
theorem plainServer_writes {source : Source} {seed : EnterpriseSeed} {data : SourceData} {e : String}
    (h : readSource source seed = .ok data) :
    migrateSqliteToMysql plainServer source (.ok seed) false newTarget ≠ (.error e, newTarget) := by
  have hversion : requireMysql8 plainServer = .ok () := by decide
  intro hmigrate
  simp only [migrateSqliteToMysql, bind, Except.bind, h, hversion, pure, Except.pure,
    Bool.false_eq_true, if_false] at hmigrate
  -- Past the migrations the answer is a success, or an error with the tables there.
  have htables : ∀ {target' : Target}, target'.tables = true → newTarget ≠ target' := by
    rintro target' htables rfl
    cases htables
  split at hmigrate
  · rename_i target' hmigrated
    cases hmigrated
  · rename_i target' hmigrated
    obtain ⟨-, rfl⟩ := Prod.mk.inj hmigrated
    split at hmigrate
    · exact htables rfl (congrArg Prod.snd hmigrate).symm
    · split at hmigrate
      · exact htables rfl (congrArg Prod.snd hmigrate).symm
      · cases congrArg Prod.fst hmigrate

section Samples

def sampleSeed : EnterpriseSeed := { fingerprint := "github.com/acme", maxAccounts := 10 }

def sampleAccount : SqliteAccountRow where
  identity := "ada"
  ssoUser := "ada@acme.example"
  ghLogin := some "ada_acme"
  copilotOauthToken := some "gho_1"
  copilotOauthStatus := "valid"
  copilotOauthUpdatedAt := some "2026-01-02T03:04:05.678Z"
  copilotOauthAttemptId := none
  createdAt := "2026-01-01T00:00:00.000Z"
  updatedAt := "2026-01-02T03:04:05.678Z"
  enterpriseId := some defaultEnterpriseId
  further := []

/-- A request made directly, or under a lease of a caller. -/
def sampleStat (callerId leaseId : Option String) : SqliteStatRow where
  id := "1"
  identity := "ada"
  ghLogin := some "ada_acme"
  requestedAt := "2026-01-02T03:04:05.678Z"
  path := "/chat/completions"
  model := some "gpt"
  success := 1
  failureReason := none
  inputTokens := some 12
  outputTokens := some 34
  cacheTokens := none
  cacheInputTokens := none
  cacheWriteTokens := none
  callerId
  leaseId
  enterpriseId := some defaultEnterpriseId
  further := []

def sampleEnterprise : EnterpriseRow where
  id := defaultEnterpriseId
  state := "active"
  maxAccounts := 10
  inventoryCount := 0
  policyVersion := 1
  profileFingerprint := "github.com/acme"
  createdAt := 0
  updatedAt := 0

/-- A database of the current schema with one account and one request, and no pool members left. -/
def sampleSource (callerId leaseId : Option String) : Source where
  accounts := some { columns := accountColumns, rows := [sampleAccount] }
  requestStats := some { columns := statColumns, rows := [sampleStat callerId leaseId] }
  enterprises := some { columns := requiredEnterpriseColumns, rows := [sampleEnterprise] }
  poolMembers := []
  account_enterprise := by
    rintro _ ⟨⟩ h
    exact absurd (by decide) h
  stat_enterprise := by
    rintro _ ⟨⟩ h
    exact absurd (by decide : "enterprise_id" ∈ statColumns) h
  account_further := by
    rintro _ ⟨⟩ row hrow
    rw [List.mem_singleton.mp hrow]
    exact List.forall_mem_nil _
  stat_further := by
    rintro _ ⟨⟩ row hrow
    rw [List.mem_singleton.mp hrow]
    exact List.forall_mem_nil _

/-- The tool on a source with such a request. -/
def sampleRun (callerId leaseId : Option String) : Except String MigrationResult × Target :=
  migrateSqliteToMysql plainServer (sampleSource callerId leaseId) (.ok sampleSeed) false newTarget

def leasedSource : Source := sampleSource (some "caller") (some "lease")

def leasedRun : Except String MigrationResult × Target := sampleRun (some "caller") (some "lease")

end Samples

end GhcpConsole.Upgrade
