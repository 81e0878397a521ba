import GhcpConsole.Sso.MigrationSteps

/-!
# Starting the upgrade over

Every statement of the run looks for what it would make and does nothing when it is there. With the
column of the pending cancellation dates and the refusal of the rows planned without them taken as
one statement, a run that was cut off can be started over (`restart_resumable`).
-/

namespace GhcpConsole.Sso

open Sql Sqlite

/-! ## Enterprise rows -/

/-- The registry's enterprise has its row and its settings. -/
structure Listed (seed : SsoEnterpriseSeed) (db : Db) : Prop where
  enterprise : ∃ row, enterpriseRow db seed.id = some row
    ∧ row "profile_fingerprint" = .text seed.fingerprint
  settings : ∃ table, db.tables "sso_runtime_settings" = some table
    ∧ table.schema = createRuntimeSettings ∧ ∃ row ∈ table.rows, row "enterprise_id" = .text seed.id

section Enterprises

variable {db db' : Db} {seed other : SsoEnterpriseSeed} {seeds : List SsoEnterpriseSeed}
variable {now : String} {row : Row}

theorem enterpriseRow_mem {id : String} (h : enterpriseRow db id = some row) :
    row ∈ db.rows "sso_enterprises" ∧ row "id" = .text id :=
  ⟨List.mem_of_find?_eq_some h, by simpa using List.find?_some h⟩

theorem insertOrIgnore_others {name t : String} {values : List (String × Value)}
    (h : insertOrIgnore name values db = .ok db') (hne : t ≠ name) : db'.tables t = db.tables t := by
  obtain ⟨table, -, -, ⟨-, rfl⟩ | rfl⟩ := insertOrIgnore_ok h
  · rfl
  · exact Db.put_tables_ne hne

theorem insertEnterpriseIfMissing_keeps {id : String}
    (h : insertEnterpriseIfMissing now seed db = .ok db') (hrow : enterpriseRow db id = some row) :
    enterpriseRow db' id = some row := by
  obtain ⟨table, htable, -, ⟨-, rfl⟩ | rfl⟩ := insertOrIgnore_ok h
  · exact hrow
  · rw [enterpriseRow, Db.rows_eq htable] at hrow
    rw [enterpriseRow, Db.rows_eq Db.put_tables_self, List.find?_append, hrow, Option.some_or]

theorem verifyEnterpriseIdentity_others {t : String} (h : verifyEnterpriseIdentity seed db = .ok db')
    (hne : t ≠ "sso_enterprises") : db'.tables t = db.tables t := by
  unfold verifyEnterpriseIdentity at h
  split at h
  · cases h
  · split at h
    · obtain rfl := Except.ok.inj h
      rfl
    · split at h
      · cases h
      · obtain ⟨table, -, rfl⟩ := alter_ok h
        exact Db.put_tables_ne hne

/-- The fingerprint that the update sets, in the rows of the one enterprise. -/
def setFingerprint (seed : SsoEnterpriseSeed) (row : Row) : Row :=
  if row "id" = .text seed.id then
    Function.update row "profile_fingerprint" (.text seed.fingerprint)
  else row

theorem setFingerprint_id : setFingerprint seed row "id" = row "id" := by
  unfold setFingerprint
  split
  · exact Function.update_of_ne (by decide) ..
  · rfl

theorem verifyEnterpriseIdentity_ok (h : verifyEnterpriseIdentity seed db = .ok db') :
    ∃ row, enterpriseRow db seed.id = some row
      ∧ ((row "profile_fingerprint" = .text seed.fingerprint ∧ db' = db)
        ∨ ∀ id, enterpriseRow db' id = (enterpriseRow db id).map (setFingerprint seed)) := by
  unfold verifyEnterpriseIdentity at h
  split at h
  · cases h
  · rename_i row hfound
    refine ⟨row, hfound, ?_⟩
    split at h
    · rename_i hsame
      exact .inl ⟨hsame, (Except.ok.inj h).symm⟩
    · split at h
      · cases h
      · right
        obtain ⟨table, htable, rfl⟩ := alter_ok h
        have hrows : ∀ row : Row, (if decide (row "id" = .text seed.id) = true then
            [("profile_fingerprint", Value.text seed.fingerprint)].foldl
              (fun row cell => Function.update row cell.1 cell.2) row
            else row) = setFingerprint seed row := fun row => by
          simp only [decide_eq_true_eq]
          rfl
        intro id
        rw [enterpriseRow, enterpriseRow, Db.rows_eq Db.put_tables_self, Db.rows_eq htable]
        simp only [hrows, List.find?_map, Function.comp_def, setFingerprint_id]

theorem verifyEnterpriseIdentity_sets (h : verifyEnterpriseIdentity seed db = .ok db') :
    ∃ row, enterpriseRow db' seed.id = some row
      ∧ row "profile_fingerprint" = .text seed.fingerprint := by
  obtain ⟨row, hrow, ⟨hsame, rfl⟩ | hset⟩ := verifyEnterpriseIdentity_ok h
  · exact ⟨row, hrow, hsame⟩
  · refine ⟨setFingerprint seed row, by rw [hset, hrow, Option.map_some], ?_⟩
    rw [setFingerprint, if_pos (enterpriseRow_mem hrow).2, Function.update_self]

theorem verifyEnterpriseIdentity_keeps (h : verifyEnterpriseIdentity seed db = .ok db')
    (hne : other.id ≠ seed.id) (hrow : enterpriseRow db other.id = some row) :
    enterpriseRow db' other.id = some row := by
  obtain ⟨-, -, ⟨-, rfl⟩ | hset⟩ := verifyEnterpriseIdentity_ok h
  · exact hrow
  · have hid : row "id" ≠ .text seed.id := by
      rw [(enterpriseRow_mem hrow).2]
      exact fun hsame => hne (Value.text.inj hsame)
    rw [hset, hrow, Option.map_some, setFingerprint, if_neg hid]

theorem insertRuntimeSettingsIfMissing_lists (hs : Shaped db)
    (h : insertRuntimeSettingsIfMissing now seed db = .ok db') :
    ∃ table, db'.tables "sso_runtime_settings" = some table
      ∧ table.schema = createRuntimeSettings
      ∧ ∃ row ∈ table.rows, row "enterprise_id" = .text seed.id := by
  obtain ⟨table, htable, hcolumns, hinsert⟩ := insertOrIgnore_ok h
  -- Only the settings of after the upgrade have the key.
  have hschema : table.schema = createRuntimeSettings := by
    rcases hs.settings table htable with hold | hnew
    · rw [hold] at hcolumns
      exact absurd hcolumns (by simp [settingsValues, Schema.hasColumn, Baseline.runtimeSettings,
        runtimeSettingsFields, column, required])
    · exact hnew
  rcases hinsert with ⟨hrefused, rfl⟩ | rfl
  · refine ⟨table, htable, hschema, ?_⟩
    rw [hschema] at hrefused
    obtain ⟨row, hrow, hkey⟩ := Table.refused_sameKey hrefused
      (by rw [hschema]; simp [createRuntimeSettings, runtimeSettingsFields, settingsValues,
        Schema.newRow, column, required])
      (by rw [hschema]; rfl)
    rw [hschema] at hkey
    refine ⟨row, hrow, ?_⟩
    rw [← (sameKey_singleton.mp hkey).1]
    simp [Schema.newRow]
  · exact ⟨_, Db.put_tables_self, hschema, _, List.mem_append_right _ (List.mem_singleton_self _),
      by simp [Schema.newRow]⟩

theorem insertRuntimeSettingsIfMissing_keeps (h : insertRuntimeSettingsIfMissing now seed db = .ok db')
    (hlisted : ∃ table, db.tables "sso_runtime_settings" = some table
      ∧ table.schema = createRuntimeSettings
      ∧ ∃ row ∈ table.rows, row "enterprise_id" = .text other.id) :
    ∃ table, db'.tables "sso_runtime_settings" = some table
      ∧ table.schema = createRuntimeSettings
      ∧ ∃ row ∈ table.rows, row "enterprise_id" = .text other.id := by
  obtain ⟨table, htable, -, ⟨-, rfl⟩ | rfl⟩ := insertOrIgnore_ok h
  · exact hlisted
  · obtain ⟨t, ht, hschema, row, hrow, hid⟩ := hlisted
    obtain rfl := Option.some.inj (htable.symm.trans ht)
    exact ⟨_, Db.put_tables_self, hschema, row, List.mem_append_left _ hrow, hid⟩

theorem syncEnterprise_ok (h : syncEnterprise now db seed = .ok db') :
    ∃ inserted verified, insertEnterpriseIfMissing now seed db = .ok inserted
      ∧ verifyEnterpriseIdentity seed inserted = .ok verified
      ∧ insertRuntimeSettingsIfMissing now seed verified = .ok db' := by
  simp only [syncEnterprise, except_bind_eq_ok] at h
  obtain ⟨inserted, hinsert, verified, hverify, hsettings⟩ := h
  exact ⟨inserted, verified, hinsert, hverify, hsettings⟩

theorem syncEnterprise_lists (hs : Shaped db) (h : syncEnterprise now db seed = .ok db') :
    Listed seed db' := by
  obtain ⟨inserted, verified, hinsert, hverify, hsettings⟩ := syncEnterprise_ok h
  have hshaped : Shaped verified := (verifyEnterpriseIdentity_progress hverify).shaped
    ((insertOrIgnore_progress (by decide) hinsert).shaped hs)
  obtain ⟨row, hrow, hfingerprint⟩ := verifyEnterpriseIdentity_sets hverify
  refine ⟨⟨row, ?_, hfingerprint⟩, insertRuntimeSettingsIfMissing_lists hshaped hsettings⟩
  rw [enterpriseRow, Db.rows, insertOrIgnore_others hsettings (by decide)]
  exact hrow

theorem syncEnterprise_keeps (hne : other.id ≠ seed.id) (hlisted : Listed other db)
    (h : syncEnterprise now db seed = .ok db') : Listed other db' := by
  obtain ⟨inserted, verified, hinsert, hverify, hsettings⟩ := syncEnterprise_ok h
  obtain ⟨⟨row, hrow, hfingerprint⟩, hlisted⟩ := hlisted
  refine ⟨⟨row, ?_, hfingerprint⟩, insertRuntimeSettingsIfMissing_keeps hsettings ?_⟩
  · rw [enterpriseRow, Db.rows, insertOrIgnore_others hsettings (by decide)]
    exact verifyEnterpriseIdentity_keeps hverify hne (insertEnterpriseIfMissing_keeps hinsert hrow)
  · rw [verifyEnterpriseIdentity_others hverify (by decide), insertOrIgnore_others hinsert (by decide)]
    exact hlisted

theorem syncEnterprise_idle (hs : Shaped db) (h : Listed seed db) :
    syncEnterprise now db seed = .ok db := by
  obtain ⟨⟨row, hrow, hfingerprint⟩, settings, hsettings, hschema, own, hown, hid⟩ := h
  have hinsert : insertEnterpriseIfMissing now seed db = .ok db := by
    obtain ⟨hmem, hrowId⟩ := enterpriseRow_mem hrow
    unfold Db.rows at hmem
    cases htable : db.tables "sso_enterprises" with
    | none =>
        rw [htable] at hmem
        exact absurd hmem List.not_mem_nil
    | some table =>
        rw [htable] at hmem
        have hshape := hs.enterprises table htable
        refine insertOrIgnore_of_sameKey htable (by rw [hshape]; rfl) hmem ?_
        rw [hshape]
        exact sameKey_singleton.mpr ⟨by rw [hrowId]; simp [Schema.newRow], by simp [Schema.newRow]⟩
  have hverify : verifyEnterpriseIdentity seed db = .ok db := by
    unfold verifyEnterpriseIdentity
    rw [hrow]
    exact if_pos hfingerprint
  have hinsertSettings : insertRuntimeSettingsIfMissing now seed db = .ok db := by
    refine insertOrIgnore_of_sameKey hsettings (by rw [hschema]; rfl) hown ?_
    rw [hschema]
    exact sameKey_singleton.mpr ⟨by rw [hid]; simp [Schema.newRow], by simp [Schema.newRow]⟩
  simp only [syncEnterprise, hinsert, hverify, bind, Except.bind, hinsertSettings]

theorem syncEnterprises_redone (hnodup : (seeds.map (·.id)).Nodup) :
    Redone Shaped (syncEnterprises now seeds) := by
  intro db db' hs h
  have hlists : ∀ {left : List SsoEnterpriseSeed} {db : Db}, Shaped db →
      (left.map (·.id)).Nodup → (∀ seed ∈ seeds, seed ∈ left ∨ (Listed seed db
        ∧ seed.id ∉ left.map (·.id))) →
      left.foldlM (syncEnterprise now) db = .ok db' → ∀ seed ∈ seeds, Listed seed db' := by
    intro left
    induction left with
    | nil =>
        intro db _ _ hlisted hrun seed hseed
        obtain rfl := Except.ok.inj hrun
        rcases hlisted seed hseed with hmem | ⟨hseed, -⟩
        · exact absurd hmem List.not_mem_nil
        · exact hseed
    | cons first left ih =>
        intro db hs hnodup hlisted hrun
        rw [List.foldlM_cons, except_bind_eq_ok] at hrun
        obtain ⟨mid, hfirst, hrest⟩ := hrun
        rw [List.map_cons, List.nodup_cons] at hnodup
        refine ih ((syncEnterprise_progress hfirst).shaped hs) hnodup.2 (fun seed hseed => ?_) hrest
        rcases hlisted seed hseed with hmem | ⟨hdone, hnot⟩
        · rcases List.mem_cons.mp hmem with rfl | hmem
          · exact .inr ⟨syncEnterprise_lists hs hfirst, hnodup.1⟩
          · exact .inl hmem
        · rw [List.map_cons, List.mem_cons, not_or] at hnot
          exact .inr ⟨syncEnterprise_keeps hnot.1 hdone hfirst, hnot.2⟩
  have hshaped := (syncEnterprises_progress h).shaped hs
  simp only [syncEnterprises, except_bind_eq_ok] at h ⊢
  obtain ⟨synced, hsynced, h⟩ := h
  have hsame : synced = db' := by
    simp only [assertNoRemovedEnterpriseWithUsers] at h
    split at h
    · exact Except.ok.inj h
    · cases h
  subst hsame
  have hlisted := hlists hs hnodup (fun seed hseed => .inl hseed) hsynced
  have hidle : ∀ {left : List SsoEnterpriseSeed}, (∀ seed ∈ left, Listed seed synced) →
      left.foldlM (syncEnterprise now) synced = .ok synced := by
    intro left
    induction left with
    | nil => exact fun _ => rfl
    | cons first left ih =>
        intro hleft
        rw [List.forall_mem_cons] at hleft
        rw [List.foldlM_cons, syncEnterprise_idle hshaped hleft.1]
        exact ih hleft.2
  exact ⟨synced, hidle hlisted, h⟩

end Enterprises

/-! ## Statements that last -/

/-- A statement that makes something, looks for it, and does nothing when it is there. -/
structure Lasting (a : Db → Except String Db) (made : Db → Prop) : Prop where
  makes : ∀ {db db'}, Shaped db → a db = .ok db' → made db'
  idle : ∀ {db}, Shaped db → made db → a db = .ok db
  stays : ∀ {db db'}, Progress db db' → made db → made db'

/-- A statement that undoes nothing. -/
def Progresses (a : Db → Except String Db) : Prop := ∀ db db', a db = .ok db' → Progress db db'

section Lasting

variable {db db' : Db} {a b : Db → Except String Db} {made : Db → Prop} {name other type now : String}
variable {schema : Schema} {step : SqliteMigrationStep} {seed : SsoEnterpriseSeed}

theorem Lasting.redone (h : Lasting a made) (ha : Progresses a) : Redone Shaped a :=
  fun db db' hs hrun => h.idle ((ha db db' hrun).shaped hs) (h.makes hs hrun)

theorem Lasting.survives (h : Lasting a made) (hb : Progresses b) : Survives Shaped a b :=
  fun db db' hs hidle hrun =>
    h.idle ((hb db db' hrun).shaped hs) (h.stays (hb db db' hrun) (h.makes hs hidle))

theorem createTable_lasting (hname : name ∈ ssoTables) :
    Lasting (createTable name schema) fun db => (db.tables name).isSome = true where
  makes _ h := by
    rcases createTable_ok h with ⟨hsome, rfl⟩ | ⟨-, rfl⟩
    · exact hsome
    · rw [Db.put_tables_self]
      rfl
  idle _ hmade := if_pos hmade
  stays hprogress hmade := hprogress.tables name hname hmade

theorem createIndex_lasting :
    Lasting (createIndex Baseline.importPlanRowsStatus) fun db =>
      Baseline.importPlanRowsStatus ∈ db.indexes where
  makes hs h := by
    rcases createIndex_ok h with ⟨hany, rfl⟩ | ⟨-, rfl⟩
    · obtain ⟨index, hindex, hname⟩ := List.any_eq_true.mp hany
      exact hs.indexes index hindex (of_decide_eq_true hname) ▸ hindex
    · exact List.mem_append_right _ (List.mem_singleton_self _)
  idle _ hmade := if_pos (List.any_eq_true.mpr ⟨_, hmade, decide_eq_true rfl⟩)
  stays hprogress hmade := hprogress.indexes.kept _ hmade rfl

theorem addColumnIfMissing_lasting (hadded : (name, other) ∈ addedColumns) :
    Lasting (addColumnIfMissing name other type) fun db => db.hasColumn name other = true where
  makes _ h := by
    rcases addColumnIfMissing_ok h with ⟨hhas, rfl⟩ | ⟨-, table, -, rfl⟩
    · exact hhas
    · rw [Db.hasColumn_eq Db.put_tables_self]
      simp [Schema.hasColumn, column]
  idle _ hmade := if_pos hmade
  stays hprogress hmade := hprogress.columns _ hadded hmade

theorem dropLegacyPasswordColumn_lasting :
    Lasting dropLegacyPasswordColumn fun db =>
      db.hasColumn "sso_emu_import_plan_rows" "password_for_login" = false where
  makes _ h := by
    unfold dropLegacyPasswordColumn at h
    split at h
    · obtain ⟨table, -, rfl⟩ := alter_ok h
      rw [Db.hasColumn_eq Db.put_tables_self]
      simp [Schema.hasColumn]
    · rename_i hlacks
      obtain rfl := Except.ok.inj h
      exact Bool.eq_false_iff.mpr hlacks
  idle _ hmade := if_neg (Bool.eq_false_iff.mp hmade)
  stays hprogress := hprogress.password

theorem applyStep_lasting :
    Lasting (applyStep ssoTables now step) fun db => isApplied db step.id = true where
  makes _ h := by
    rcases applyStep_ok h with ⟨happlied, rfl⟩ | ⟨-, mid, -, -, hrecord⟩
    · exact happlied
    · exact recordStep_applied hrecord
  idle _ hmade := if_pos hmade
  stays hprogress := hprogress.applied _

/-- The settings row is seeded once. -/
theorem seedBaselineRuntimeSettings_made (hs : Shaped db)
    (h : seedBaselineRuntimeSettings now seed db = .ok db') :
    (db.tables "sso_runtime_settings" = none ∧ db' = db) ∨ Seeded db' := by
  unfold seedBaselineRuntimeSettings at h
  split at h
  · right
    rename_i hid
    obtain ⟨table, htable, -, hinsert⟩ := insertOrIgnore_ok h
    rw [Db.hasColumn_eq htable] at hid
    have hschema : table.schema = Baseline.runtimeSettings := by
      rcases hs.settings table htable with hold | hnew
      · exact hold
      · rw [hnew] at hid
        exact absurd hid (by decide)
    rcases hinsert with ⟨hrefused, rfl⟩ | rfl
    · rw [hschema] at hrefused
      obtain ⟨row, hrow, hkey⟩ := Table.refused_sameKey hrefused
        (by rw [hschema]; simp [Baseline.runtimeSettings, runtimeSettingsFields, settingsValues,
          Schema.newRow, column, required])
        (by rw [hschema]; simp [Baseline.runtimeSettings, Schema.newRow])
      rw [hschema] at hkey
      refine ⟨table, htable, .inr ⟨row, hrow, ?_⟩⟩
      rw [← (sameKey_singleton.mp hkey).1]
      simp [Schema.newRow]
    · exact ⟨_, Db.put_tables_self, .inr ⟨_, List.mem_append_right _ (List.mem_singleton_self _),
        by simp [Schema.newRow]⟩⟩
  · rename_i hlacks
    obtain rfl := Except.ok.inj h
    cases htable : db.tables "sso_runtime_settings" with
    | none => exact .inl ⟨rfl, rfl⟩
    | some table =>
        rw [Db.hasColumn_eq htable] at hlacks
        exact .inr ⟨table, htable, .inl (Bool.eq_false_iff.mpr hlacks)⟩

theorem seedBaselineRuntimeSettings_idle (hs : Shaped db) (h : Seeded db) :
    seedBaselineRuntimeSettings now seed db = .ok db := by
  obtain ⟨table, htable, hseeded⟩ := h
  unfold seedBaselineRuntimeSettings
  split
  · rename_i hid
    rw [Db.hasColumn_eq htable] at hid
    rcases hseeded with hlacks | ⟨row, hrow, hone⟩
    · rw [hlacks] at hid
      cases hid
    · rcases hs.settings table htable with hold | hnew
      · refine insertOrIgnore_of_sameKey htable (by rw [hold]; rfl) hrow ?_
        rw [hold]
        exact sameKey_singleton.mpr ⟨by rw [hone]; simp [Schema.newRow], by simp [Schema.newRow]⟩
      · rw [hnew] at hid
        exact absurd hid (by decide)
  · rfl

theorem seedBaselineRuntimeSettings_missing (h : db.tables "sso_runtime_settings" = none) :
    seedBaselineRuntimeSettings now seed db = .ok db := by
  unfold seedBaselineRuntimeSettings
  rw [if_neg]
  simp [Db.hasColumn, h]

theorem seedBaselineRuntimeSettings_progress : Progresses (seedBaselineRuntimeSettings now seed) := by
  intro db db' h
  unfold seedBaselineRuntimeSettings at h
  split at h
  · exact insertOrIgnore_progress (by decide) h
  · obtain rfl := Except.ok.inj h
    exact .refl

theorem seedBaselineRuntimeSettings_redone :
    Redone Shaped (seedBaselineRuntimeSettings now seed) := by
  intro db db' hs h
  rcases seedBaselineRuntimeSettings_made hs h with ⟨hmissing, rfl⟩ | hseeded
  · exact seedBaselineRuntimeSettings_missing hmissing
  · exact seedBaselineRuntimeSettings_idle
      ((seedBaselineRuntimeSettings_progress db db' h).shaped hs) hseeded

/-- A statement that does not make the settings table. -/
def LeavesMissing (a : Db → Except String Db) : Prop :=
  ∀ db db', db.tables "sso_runtime_settings" = none → a db = .ok db' →
    db'.tables "sso_runtime_settings" = none

theorem seedBaselineRuntimeSettings_survives (hb : Progresses b) (hmissing : LeavesMissing b) :
    Survives Shaped (seedBaselineRuntimeSettings now seed) b := by
  intro db db' hs hidle hrun
  rcases seedBaselineRuntimeSettings_made hs hidle with ⟨hnone, -⟩ | hseeded
  · exact seedBaselineRuntimeSettings_missing (hmissing db db' hnone hrun)
  · exact seedBaselineRuntimeSettings_idle ((hb db db' hrun).shaped hs)
      ((hb db db' hrun).seeded hseeded)

end Lasting

/-! ## Tables left alone -/

/-- The statement leaves the table as it is. -/
def Frames (t : String) (a : Db → Except String Db) : Prop :=
  ∀ db db', a db = .ok db' → db'.tables t = db.tables t

section Frames

variable {t name other type now : String} {schema : Schema} {index : Index}
variable {step : SqliteMigrationStep} {seed : SsoEnterpriseSeed} {seeds : List SsoEnterpriseSeed}
variable {rebuild : SqliteTableRebuild} {f : Table → Table} {as : List (Db → Except String Db)}
variable {db db' : Db}

theorem Frames.leavesMissing {a : Db → Except String Db} (h : Frames "sso_runtime_settings" a) :
    LeavesMissing a := fun db db' hnone hrun => (h db db' hrun).trans hnone

theorem Frames.perform (h : ∀ a ∈ as, Frames t a) (hrun : perform as db = (.ok (), db')) :
    db'.tables t = db.tables t := by
  induction as generalizing db with
  | nil =>
      obtain rfl := congrArg Prod.snd hrun
      rfl
  | cons a as ih =>
      obtain ⟨mid, ha, hrest⟩ := perform_cons_eq_ok.mp hrun
      rw [List.forall_mem_cons] at h
      exact (ih h.2 hrest).trans (h.1 db mid ha)

theorem createTable_frames (hne : t ≠ name) : Frames t (createTable name schema) := by
  intro db db' h
  rcases createTable_ok h with ⟨-, rfl⟩ | ⟨-, rfl⟩
  · rfl
  · exact Db.put_tables_ne hne

theorem createIndex_frames : Frames t (createIndex index) := by
  intro db db' h
  rcases createIndex_ok h with ⟨-, rfl⟩ | ⟨-, rfl⟩ <;> rfl

theorem alter_frames (hne : t ≠ name) : Frames t (alter name f) := by
  intro db db' h
  obtain ⟨table, -, rfl⟩ := alter_ok h
  exact Db.put_tables_ne hne

theorem addColumnIfMissing_frames (hne : t ≠ name) : Frames t (addColumnIfMissing name other type) := by
  intro db db' h
  rcases addColumnIfMissing_ok h with ⟨-, rfl⟩ | ⟨-, table, -, rfl⟩
  · rfl
  · exact Db.put_tables_ne hne

theorem dropLegacyPasswordColumn_frames (hne : t ≠ "sso_emu_import_plan_rows") :
    Frames t dropLegacyPasswordColumn := by
  intro db db' h
  unfold dropLegacyPasswordColumn at h
  split at h
  · exact alter_frames hne db db' h
  · rw [Except.ok.inj h]

theorem seedBaselineRuntimeSettings_frames (hne : t ≠ "sso_runtime_settings") :
    Frames t (seedBaselineRuntimeSettings now seed) := by
  intro db db' h
  unfold seedBaselineRuntimeSettings at h
  split at h
  · exact insertOrIgnore_others h hne
  · rw [Except.ok.inj h]

theorem recordStep_frames {id : String} (hne : t ≠ "schema_migrations") :
    Frames t (recordStep now id) := by
  intro db db' h
  obtain ⟨table, -, rfl⟩ := recordStep_ok h
  exact Db.put_tables_ne hne

theorem moveToDefault_frames (hrebuild : Rebuilds rebuild) (ht : t ∈ ssoTables)
    (hne : t ≠ rebuild.table) : Frames t (moveToDefault rebuild) := by
  intro db db' h
  obtain ⟨old, -, hchanges⟩ := moveToDefault_ok hrebuild h
  exact hchanges.others t ht hne

theorem applyStep_frames (hstep : Frames t step.up) (hne : t ≠ "schema_migrations") :
    Frames t (applyStep ssoTables now step) := by
  intro db db' h
  rcases applyStep_ok h with ⟨-, rfl⟩ | ⟨-, mid, hmid, -, hrecord⟩
  · rfl
  · exact (recordStep_frames hne mid db' hrecord).trans (hstep db mid hmid)

/-- The tables that a step of the upgrade makes or rebuilds. -/
def stepTables (id : String) : List String :=
  if id = EnterpriseMigrationIds.createEnterprises then ["sso_enterprises"]
  else if id = EnterpriseMigrationIds.users then ["sso_users", "sso_pool_managed_users"]
  else if id = EnterpriseMigrationIds.runtimeSettings then ["sso_runtime_settings"]
  else if id = EnterpriseMigrationIds.budgetCache then ["sso_budget_cache"]
  else if id = EnterpriseMigrationIds.importPlans then ["sso_emu_import_plans"]
  else []

theorem enterpriseSteps_frames (hstep : step ∈ enterpriseSteps now seed) (ht : t ∈ ssoTables)
    (hne : t ∉ stepTables step.id) : Frames t step.up := by
  simp only [enterpriseSteps, List.mem_cons, List.not_mem_nil, or_false] at hstep
  rcases hstep with rfl | rfl | rfl | rfl | rfl
  · have hother : t ≠ "sso_enterprises" := List.mem_singleton.not.mp hne
    intro db db' h
    simp only [createEnterprises, except_bind_eq_ok] at h
    obtain ⟨mid, hcreate, hinsert⟩ := h
    exact (insertOrIgnore_others hinsert hother).trans (createTable_frames hother db mid hcreate)
  · have hother : t ∉ ["sso_users", "sso_pool_managed_users"] := hne
    rw [List.mem_cons, List.mem_singleton, not_or] at hother
    intro db db' h
    simp only [migrateUsers, except_bind_eq_ok] at h
    obtain ⟨mid, husers, hmarkers⟩ := h
    exact (moveToDefault_frames poolManagedUsersRebuild_rebuilds ht hother.2 mid db' hmarkers).trans
      (moveToDefault_frames usersRebuild_rebuilds ht hother.1 db mid husers)
  · exact moveToDefault_frames runtimeSettingsRebuild_rebuilds ht (List.mem_singleton.not.mp hne)
  · exact moveToDefault_frames budgetCacheRebuild_rebuilds ht (List.mem_singleton.not.mp hne)
  · exact moveToDefault_frames importPlansRebuild_rebuilds ht (List.mem_singleton.not.mp hne)

theorem syncEnterprise_frames (hne : t ≠ "sso_enterprises" ∧ t ≠ "sso_runtime_settings")
    (h : syncEnterprise now db seed = .ok db') : db'.tables t = db.tables t := by
  obtain ⟨inserted, verified, hinsert, hverify, hsettings⟩ := syncEnterprise_ok h
  rw [insertOrIgnore_others hsettings hne.2, verifyEnterpriseIdentity_others hverify hne.1,
    insertOrIgnore_others hinsert hne.1]

theorem syncEnterprises_ok (h : syncEnterprises now seeds db = .ok db') :
    seeds.foldlM (syncEnterprise now) db = .ok db' := by
  simp only [syncEnterprises, except_bind_eq_ok, assertNoRemovedEnterpriseWithUsers] at h
  obtain ⟨synced, hsynced, h⟩ := h
  split at h
  · rw [hsynced, h]
  · cases h

theorem syncEnterprises_frames (hne : t ≠ "sso_enterprises" ∧ t ≠ "sso_runtime_settings") :
    Frames t (syncEnterprises now seeds) := by
  intro db db' h
  have hrun := syncEnterprises_ok h
  clear h
  induction seeds generalizing db with
  | nil => rw [Except.ok.inj hrun]
  | cons seed seeds ih =>
      rw [List.foldlM_cons, except_bind_eq_ok] at hrun
      obtain ⟨mid, hseed, hrest⟩ := hrun
      exact (ih mid hrest).trans (syncEnterprise_frames hne hseed)

end Frames

/-! ## The run as one list -/

/-- The two statements around the pending cancellation dates. -/
def addDatesAndRefuse (db : Db) : Except String Db :=
  if db.hasColumn "sso_emu_import_plan_rows" "copilot_seat_pending_cancellation_date" then .ok db
  else do
    let db ← addColumn "sso_emu_import_plan_rows" "copilot_seat_pending_cancellation_date" "TEXT" db
    refusePending db

/-- The run with these two taken as one. -/
def wholeRun (now : String) (defaultSeed : SsoEnterpriseSeed) (enterprises : List SsoEnterpriseSeed) :
    List (Db → Except String Db) :=
  beforeDates now defaultSeed ++ addDatesAndRefuse :: afterDates now defaultSeed enterprises

section Whole

variable {db db' : Db} {a : Db → Except String Db} {now : String} {seed : SsoEnterpriseSeed}
variable {seeds : List SsoEnterpriseSeed} {step : SqliteMigrationStep}

theorem refusePending_of_some {table : Table}
    (h : db.tables "sso_emu_import_plan_rows" = some table) : ∃ db', refusePending db = .ok db' :=
  ⟨_, alter_of_some h⟩

theorem addDatesAndRefuse_ok (h : addDatesAndRefuse db = .ok db') :
    (db.hasColumn "sso_emu_import_plan_rows" "copilot_seat_pending_cancellation_date" = true
        ∧ db' = db)
      ∨ (db.hasColumn "sso_emu_import_plan_rows" "copilot_seat_pending_cancellation_date" = false
        ∧ ∃ mid, addColumnIfMissing "sso_emu_import_plan_rows" "copilot_seat_pending_cancellation_date"
            "TEXT" db = .ok mid
          ∧ mid.hasColumn "sso_emu_import_plan_rows" "copilot_seat_pending_cancellation_date" = true
          ∧ refusePending mid = .ok db') := by
  unfold addDatesAndRefuse at h
  split at h
  · rename_i hhas
    exact .inl ⟨hhas, (Except.ok.inj h).symm⟩
  · rename_i hlacks
    rw [except_bind_eq_ok] at h
    obtain ⟨mid, hadded, hrefused⟩ := h
    refine .inr ⟨Bool.eq_false_iff.mpr hlacks, mid, ?_, ?_, hrefused⟩
    · rw [addColumnIfMissing, if_neg hlacks]
      exact hadded
    · obtain ⟨table, -, rfl⟩ := alter_ok hadded
      rw [Db.hasColumn_eq Db.put_tables_self]
      simp [Schema.hasColumn]

theorem refusePending_progress : Progresses refusePending :=
  fun _ _ h => update_progress (by decide) (by decide) h

theorem addDatesAndRefuse_progress : Progresses addDatesAndRefuse := by
  intro db db' h
  rcases addDatesAndRefuse_ok h with ⟨-, rfl⟩ | ⟨-, mid, hadded, -, hrefused⟩
  · exact .refl
  · exact (addColumnIfMissing_progress (by decide) (by decide) (by decide) hadded).trans
      (refusePending_progress mid db' hrefused)

theorem addDatesAndRefuse_lasting :
    Lasting addDatesAndRefuse fun db =>
      db.hasColumn "sso_emu_import_plan_rows" "copilot_seat_pending_cancellation_date" = true where
  makes _ h := by
    rcases addDatesAndRefuse_ok h with ⟨hhas, rfl⟩ | ⟨-, mid, -, hhas, hrefused⟩
    · exact hhas
    · exact (refusePending_progress mid _ hrefused).columns
        ("sso_emu_import_plan_rows", "copilot_seat_pending_cancellation_date") (by decide) hhas
  idle _ hmade := if_pos hmade
  stays hprogress hmade := hprogress.columns
    ("sso_emu_import_plan_rows", "copilot_seat_pending_cancellation_date") (by decide) hmade

theorem addDatesAndRefuse_frames {t : String} (hne : t ≠ "sso_emu_import_plan_rows") :
    Frames t addDatesAndRefuse := by
  intro db db' h
  rcases addDatesAndRefuse_ok h with ⟨-, rfl⟩ | ⟨-, mid, hadded, -, hrefused⟩
  · rfl
  · exact (alter_frames hne mid db' hrefused).trans (addColumnIfMissing_frames hne db mid hadded)

theorem baselineSchemaSql_progress (ha : a ∈ baselineSchemaSql) : Progresses a := by
  simp only [baselineSchemaSql, List.mem_cons, List.not_mem_nil, or_false] at ha
  rcases ha with rfl | rfl | rfl | rfl | rfl | rfl | rfl
  iterate 6
    · exact fun _ _ => createTable_progress (by constructor <;> decide)
  · exact fun _ _ => createIndex_progress (.inl rfl)

theorem baselineSchemaSql_lasting (ha : a ∈ baselineSchemaSql) : ∃ made, Lasting a made := by
  simp only [baselineSchemaSql, List.mem_cons, List.not_mem_nil, or_false] at ha
  rcases ha with rfl | rfl | rfl | rfl | rfl | rfl | rfl
  iterate 6
    · exact ⟨_, createTable_lasting (by decide)⟩
  · exact ⟨_, createIndex_lasting⟩

/-- The statements after the seeding of the settings, less the last. -/
def laterStatements (now : String) (seed : SsoEnterpriseSeed) : List (Db → Except String Db) :=
  [addColumnIfMissing "sso_emu_import_plan_rows" "copilot_seat_status" "TEXT",
    addColumnIfMissing "sso_users" "copilot_seat_pending_cancellation_date" "TEXT",
    addDatesAndRefuse, dropLegacyPasswordColumn]
  ++ runSqliteMigrations ssoTables now (enterpriseSteps now seed)

theorem wholeRun_eq : wholeRun now seed seeds = baselineSchemaSql
    ++ (seedBaselineRuntimeSettings now seed :: (laterStatements now seed
      ++ [syncEnterprises now seeds])) := rfl

theorem laterStatements_cases (ha : a ∈ laterStatements now seed) :
    a = addColumnIfMissing "sso_emu_import_plan_rows" "copilot_seat_status" "TEXT"
      ∨ a = addColumnIfMissing "sso_users" "copilot_seat_pending_cancellation_date" "TEXT"
      ∨ a = addDatesAndRefuse ∨ a = dropLegacyPasswordColumn
      ∨ a = createTable "schema_migrations" schemaMigrations
      ∨ ∃ step ∈ enterpriseSteps now seed, a = applyStep ssoTables now step := by
  simp only [laterStatements, runSqliteMigrations, List.mem_append, List.mem_cons, List.not_mem_nil,
    or_false, List.mem_map] at ha
  rcases ha with (rfl | rfl | rfl | rfl) | rfl | ⟨step, hstep, rfl⟩
  · exact .inl rfl
  · exact .inr (.inl rfl)
  · exact .inr (.inr (.inl rfl))
  · exact .inr (.inr (.inr (.inl rfl)))
  · exact .inr (.inr (.inr (.inr (.inl rfl))))
  · exact .inr (.inr (.inr (.inr (.inr ⟨step, hstep, rfl⟩))))

theorem laterStatements_progress (ha : a ∈ laterStatements now seed) : Progresses a := by
  rcases laterStatements_cases ha with rfl | rfl | rfl | rfl | rfl | ⟨step, hstep, rfl⟩
  · exact fun _ _ => addColumnIfMissing_progress (by decide) (by decide) (by decide)
  · exact fun _ _ => addColumnIfMissing_progress (by decide) (by decide) (by decide)
  · exact addDatesAndRefuse_progress
  · exact fun _ _ => dropLegacyPasswordColumn_progress
  · exact fun _ _ => createTable_progress (by constructor <;> decide)
  · exact fun _ _ => applyStep_progress (enterpriseSteps_progress hstep)

theorem laterStatements_lasting (ha : a ∈ laterStatements now seed) : ∃ made, Lasting a made := by
  rcases laterStatements_cases ha with rfl | rfl | rfl | rfl | rfl | ⟨step, hstep, rfl⟩
  · exact ⟨_, addColumnIfMissing_lasting (by decide)⟩
  · exact ⟨_, addColumnIfMissing_lasting (by decide)⟩
  · exact ⟨_, addDatesAndRefuse_lasting⟩
  · exact ⟨_, dropLegacyPasswordColumn_lasting⟩
  · exact ⟨_, createTable_lasting (by decide)⟩
  · exact ⟨_, applyStep_lasting⟩

theorem migrateRuntimeSettings_leavesMissing :
    LeavesMissing (applyStep ssoTables now {
      id := EnterpriseMigrationIds.runtimeSettings, up := migrateRuntimeSettings
      disableForeignKeys := true }) := by
  intro db db' hnone h
  rcases applyStep_ok h with ⟨-, rfl⟩ | ⟨-, mid, hmid, -, -⟩
  · exact hnone
  · obtain ⟨old, hold, -⟩ := moveToDefault_ok runtimeSettingsRebuild_rebuilds hmid
    have hold : db.tables "sso_runtime_settings" = some old := hold
    rw [hnone] at hold
    cases hold

theorem laterStatements_leavesMissing (ha : a ∈ laterStatements now seed) : LeavesMissing a := by
  rcases laterStatements_cases ha with rfl | rfl | rfl | rfl | rfl | ⟨step, hstep, rfl⟩
  · exact (addColumnIfMissing_frames (by decide)).leavesMissing
  · exact (addColumnIfMissing_frames (by decide)).leavesMissing
  · exact (addDatesAndRefuse_frames (by decide)).leavesMissing
  · exact (dropLegacyPasswordColumn_frames (by decide)).leavesMissing
  · exact (createTable_frames (by decide)).leavesMissing
  · by_cases hsettings : "sso_runtime_settings" ∈ stepTables step.id
    · simp only [enterpriseSteps, List.mem_cons, List.not_mem_nil, or_false] at hstep
      rcases hstep with rfl | rfl | rfl | rfl | rfl
      · exact absurd hsettings (show _ ∉ stepTables EnterpriseMigrationIds.createEnterprises by decide)
      · exact absurd hsettings (show _ ∉ stepTables EnterpriseMigrationIds.users by decide)
      · exact migrateRuntimeSettings_leavesMissing
      · exact absurd hsettings (show _ ∉ stepTables EnterpriseMigrationIds.budgetCache by decide)
      · exact absurd hsettings (show _ ∉ stepTables EnterpriseMigrationIds.importPlans by decide)
    · exact (applyStep_frames (enterpriseSteps_frames hstep (by decide) hsettings)
        (by decide)).leavesMissing

theorem syncEnterprises_leavesMissing : LeavesMissing (syncEnterprises now seeds) := by
  intro db db' hnone h
  have hrun := syncEnterprises_ok h
  cases seeds with
  | nil =>
      obtain rfl := Except.ok.inj hrun
      exact hnone
  | cons first left =>
      rw [List.foldlM_cons, except_bind_eq_ok] at hrun
      obtain ⟨mid, hfirst, -⟩ := hrun
      obtain ⟨inserted, verified, hinsert, hverify, hsettings⟩ := syncEnterprise_ok hfirst
      obtain ⟨table, htable, -⟩ := insertOrIgnore_ok hsettings
      rw [verifyEnterpriseIdentity_others hverify (by decide),
        insertOrIgnore_others hinsert (by decide), hnone] at htable
      cases htable

theorem laterRun_progress (ha : a ∈ laterStatements now seed ++ [syncEnterprises now seeds]) :
    Progresses a := by
  rcases List.mem_append.mp ha with ha | ha
  · exact laterStatements_progress ha
  · rw [List.mem_singleton.mp ha]
    exact fun _ _ => syncEnterprises_progress

theorem wholeRun_progress (ha : a ∈ wholeRun now seed seeds) : Progresses a := by
  rw [wholeRun_eq] at ha
  rcases List.mem_append.mp ha with ha | ha
  · exact baselineSchemaSql_progress ha
  · rcases List.mem_cons.mp ha with rfl | ha
    · exact seedBaselineRuntimeSettings_progress
    · exact laterRun_progress ha

/-- The run can be started over. -/
theorem wholeRun_resumable (hnodup : (seeds.map (·.id)).Nodup) :
    Resumable Shaped (wholeRun now seed seeds) := by
  refine {
    keeps := fun a ha db db' hs h => (wholeRun_progress ha db db' h).shaped hs
    redone := fun a ha => ?_
    survives := ?_ }
  · rw [wholeRun_eq] at ha
    rcases List.mem_append.mp ha with ha | ha
    · obtain ⟨made, hmade⟩ := baselineSchemaSql_lasting ha
      exact hmade.redone (baselineSchemaSql_progress ha)
    · rcases List.mem_cons.mp ha with rfl | ha
      · exact seedBaselineRuntimeSettings_redone
      · rcases List.mem_append.mp ha with ha | ha
        · obtain ⟨made, hmade⟩ := laterStatements_lasting ha
          exact hmade.redone (laterStatements_progress ha)
        · rw [List.mem_singleton.mp ha]
          exact syncEnterprises_redone hnodup
  · rw [wholeRun_eq, List.pairwise_append, List.pairwise_cons, List.pairwise_append]
    refine ⟨List.pairwise_of_forall_mem_list fun a ha b hb => ?_, ⟨fun b hb => ?_,
      List.pairwise_of_forall_mem_list fun a ha b hb => ?_, List.pairwise_singleton _ _,
      fun a ha b hb => ?_⟩, fun a ha b hb => ?_⟩
    · obtain ⟨made, hmade⟩ := baselineSchemaSql_lasting ha
      exact hmade.survives (baselineSchemaSql_progress hb)
    · refine seedBaselineRuntimeSettings_survives (laterRun_progress hb) ?_
      rcases List.mem_append.mp hb with hb | hb
      · exact laterStatements_leavesMissing hb
      · rw [List.mem_singleton.mp hb]
        exact syncEnterprises_leavesMissing
    · obtain ⟨made, hmade⟩ := laterStatements_lasting ha
      exact hmade.survives (laterStatements_progress hb)
    · obtain ⟨made, hmade⟩ := laterStatements_lasting ha
      exact hmade.survives (laterRun_progress (List.mem_append_right (laterStatements now seed) hb))
    · obtain ⟨made, hmade⟩ := baselineSchemaSql_lasting ha
      have hmem : b ∈ wholeRun now seed seeds := by
        rw [wholeRun_eq]
        exact List.mem_append_right _ hb
      exact hmade.survives (wholeRun_progress hmem)

end Whole

end GhcpConsole.Sso
