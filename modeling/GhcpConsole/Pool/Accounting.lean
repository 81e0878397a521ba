import GhcpConsole.Pool.Reservation

/-!
# Inventory, caps and names

`inventory_count` caches the number of an enterprise's member rows. Only three statements bear on
the cache; start-up corrects it, and a reservation counts each member it creates. Caps, supply
and names are properties of single batches; ordinals and foreign accounts of single statements.
-/

namespace GhcpConsole.Pool

variable {env : Env} {A : Stmt → Prop} {w w' : World}

/-! ## The frame of the sweep -/

/-- What the sweep leaves alone. -/
structure Kept (db db' : Db) : Prop where
  members : ∃ f, KeepsMember f ∧ db'.members = db.members.map f
  accounts : db'.accounts = db.accounts
  enterprises : db'.enterprises = db.enterprises
  settings : db'.settings = db.settings

theorem Kept.refl (db : Db) : Kept db db := ⟨⟨_, .id, by simp⟩, rfl, rfl, rfl⟩

theorem Kept.trans {db db₁ db₂ : Db} (h : Kept db db₁) (h' : Kept db₁ db₂) : Kept db db₂ where
  members := by
    obtain ⟨f, hf, hmap⟩ := h.members
    obtain ⟨f', hf', hmap'⟩ := h'.members
    refine ⟨f' ∘ f, ⟨fun m => ?_, fun m => ?_, fun m => ?_⟩, by rw [hmap', hmap, List.map_map]⟩
    · exact (hf'.identity _).trans (hf.identity m)
    · exact (hf'.ordinal _).trans (hf.ordinal m)
    · exact (hf'.enterpriseId _).trans (hf.enterpriseId m)
  accounts := h'.accounts.trans h.accounts
  enterprises := h'.enterprises.trans h.enterprises
  settings := h'.settings.trans h.settings

theorem kept_upkeep {st : Stmt} (hst : st.Upkeep) (db : Db) : Kept db (st.apply db) := by
  have hmem : ∃ f, KeepsMember f ∧ (st.apply db).members = db.members.map f := by
    rcases apply_members db st with h | ⟨row, rfl, -⟩
    · exact h
    · exact hst.elim
  cases st <;> first | exact ⟨hmem, rfl, rfl, rfl⟩ | exact hst.elim

theorem reclaim_kept (hrun : reclaim env w = (.ok ⟨⟩, w')) : Kept w.db w'.db := by
  have hsteps := reclaim_steps hrun
  have hkeep : ∀ v v', Step env Stmt.Upkeep v v' → Kept w.db v.db → Kept w.db v'.db := by
    intro v v' hstep hv
    cases hstep with
    | idle _ hdb => exact hdb ▸ hv
    | exec st hst _ _ hdb => exact hdb ▸ hv.trans (kept_upkeep hst _)
  exact Steps.invariant hkeep hsteps (Kept.refl _)

theorem Kept.memberCount {db db' : Db} (h : Kept db db') (id : String) :
    db'.memberCount id = db.memberCount id := by
  obtain ⟨f, hf, hmap⟩ := h.members
  rw [Db.memberCount, hmap, List.countP_map]
  exact List.countP_congr fun m _ => by simp [hf.enterpriseId]

theorem Kept.inventory_none {db db' : Db} (h : Kept db db') {identity : String} :
    db'.inventory identity = none ↔ db.inventory identity = none := by
  obtain ⟨f, hf, hmap⟩ := h.members
  rw [Db.inventory, hmap, find?_map hf.identity, Option.map_eq_none_iff]
  rfl

theorem Batch.kept {eligible plan : List String} {rows : List Inventory} {v : World}
    (h : Batch env eligible w v w' plan rows) : Kept w.db v.db := by
  obtain ⟨u, hu, hsweep⟩ := h.swept
  exact hu.db ▸ reclaim_kept hsweep

/-! ## Plans -/

theorem planReplenishment_ok {rows : List Enterprise} {eligible : List String} {supply : PoolSupply}
    {settings : Settings} {ordinal limit : Nat} {plan : List String}
    (h : planReplenishment rows eligible supply settings ordinal limit = .ok plan) :
    plan.length ≤ replenishmentDeficit settings.idleTarget supply.readyIdle supply.inFlight
        settings.paused
    ∧ ∀ id ∈ plan, ∃ e ∈ rows, e.id = id ∧ e.state = .active ∧ id ∈ eligible
        ∧ e.inventoryCount + plan.count id ≤ e.maxAccounts := by
  rw [planReplenishment] at h
  split at h
  · obtain rfl := Except.ok.inj h
    exact ⟨Nat.zero_le _, fun _ hid => absurd hid List.not_mem_nil⟩
  · refine ⟨Nat.le_trans (planCreations_length h) (Nat.min_le_left _ _), fun id hid => ?_⟩
    obtain ⟨row, hrow, hrid, helig, hcap⟩ := planCreations_mem h id hid
    obtain ⟨e, he, rfl⟩ := List.mem_map.mp hrow
    obtain ⟨hmem, hactive⟩ := List.mem_filter.mp he
    obtain rfl : e.id = id := hrid
    exact ⟨e, hmem, rfl, by simpa [isActive] using hactive, by simpa using helig, hcap⟩

theorem Batch.length_le {eligible plan : List String} {rows : List Inventory} {v : World}
    (h : Batch env eligible w v w' plan rows) : rows.length ≤ plan.length := by
  simpa using h.picked.length_le

theorem countP_map_eq {rows : List Inventory} (id : String) :
    rows.countP (fun m => m.enterpriseId = id) = (rows.map (·.enterpriseId)).count id := by
  rw [List.count, List.countP_map]
  exact List.countP_congr fun m _ => by simp

/-- A new member is of an active, eligible enterprise whose cap has room for the whole batch. -/
theorem Batch.room {eligible plan : List String} {rows : List Inventory} {v : World}
    (h : Batch env eligible w v w' plan rows) {m : Inventory} (hm : m ∈ rows) :
    ∃ e ∈ w.db.enterprises, e.id = m.enterpriseId ∧ e.state = .active ∧ e.id ∈ eligible
      ∧ e.inventoryCount + rows.countP (fun r => r.enterpriseId = e.id) ≤ e.maxAccounts := by
  obtain ⟨limit, hplan⟩ := h.planned
  have hid : m.enterpriseId ∈ plan := h.picked.subset (List.mem_map_of_mem hm)
  obtain ⟨e, he, heid, hactive, helig, hcap⟩ := (planReplenishment_ok hplan).2 _ hid
  refine ⟨e, mem_schedulingEnterprises.mp he, heid, hactive, heid ▸ helig, ?_⟩
  have hle : (rows.map (·.enterpriseId)).count e.id ≤ plan.count e.id :=
    h.picked.sublist.count_le _
  rw [countP_map_eq]
  rw [← heid] at hcap
  omega

theorem Batch.unpaused {eligible plan : List String} {rows : List Inventory} {v : World}
    (h : Batch env eligible w v w' plan rows) {m : Inventory} (hm : m ∈ rows) :
    w.db.settings.paused = false := by
  obtain ⟨limit, hplan⟩ := h.planned
  by_contra hpaused
  have hlen := (planReplenishment_ok hplan).1
  rw [h.kept.settings, replenishmentDeficit, if_pos (by simpa using hpaused)] at hlen
  have hrows := h.length_le
  have hpos := List.length_pos_of_mem hm
  omega

/-! ## Supply -/

theorem Db.Grown.enterprise {db db' : Db} {rows : List Inventory} (h : db.Grown db' rows)
    (id : String) : db'.enterprise id = (db.enterprise id).map fun e =>
      { e with inventoryCount := e.inventoryCount + rows.countP fun m => m.enterpriseId = e.id } := by
  rw [Db.enterprise, h.enterprises]
  exact find?_map (by intro; rfl) id

/-- New members are in flight; the others supply as before. -/
theorem Db.Grown.supply {db db' : Db} {rows : List Inventory} (h : db.Grown db' rows)
    (hI : db.Integrity) (t : Nat) : db'.supply t ≤ db.supply t + rows.length := by
  rw [supply_eq, supply_eq, h.members, List.countP_append]
  refine Nat.add_le_add (List.countP_mono_left fun m hm hsup => ?_) List.countP_le_length
  have hactive : inActiveEnterprise db' m = inActiveEnterprise db m := by
    rw [inActiveEnterprise, inActiveEnterprise, h.enterprise]
    cases db.enterprise m.enterpriseId <;> rfl
  have haccount : db'.account m.identity = db.account m.identity := by
    obtain ⟨added, hadded, -⟩ := h.accounts
    rw [Db.account, hadded, List.find?_append]
    exact Option.or_of_isSome (hI.memberAccount m hm)
  have hidle : ∀ a, readyIdle db' t m a = readyIdle db t m a := by
    intro a
    rw [readyIdle, readyIdle, h.leases, h.holds, h.catalogHolds]
  rw [supplying, hactive, haccount] at hsup
  rw [supplying]
  simpa only [hidle] using hsup

theorem Batch.supply {eligible plan : List String} {rows : List Inventory} {v : World}
    (h : Batch env eligible w v w' plan rows) (hI : v.db.Integrity) :
    w'.db.supply (env.clock v.ticks)
      ≤ max (v.db.supply (env.clock v.ticks)) w.db.settings.idleTarget := by
  obtain ⟨limit, hplan⟩ := h.planned
  have hgrown := h.grown.supply hI (env.clock v.ticks)
  have hlen := (planReplenishment_ok hplan).1
  have hrows := h.length_le
  have hsup : v.db.supply (env.clock v.ticks)
      = (poolSupply v.db (env.clock v.ticks)).readyIdle
        + (poolSupply v.db (env.clock v.ticks)).inFlight := rfl
  rw [h.kept.settings, replenishmentDeficit] at hlen
  split at hlen <;> omega

/-! ## The counter -/

/-- `inventory_count` is what it caches. -/
def Db.Counted (db : Db) : Prop :=
  ∀ e ∈ db.enterprises, e.inventoryCount = db.memberCount e.id

/-- The statements that bear on the counter. -/
def Stmt.Recounts : Stmt → Prop
  | .insertMember _ | .incrementInventory _ | .setInventoryCount .. => True
  | _ => False

theorem memberCount_apply {db : Db} {st : Stmt} (hst : ∀ row, st ≠ .insertMember row) (id : String) :
    (st.apply db).memberCount id = db.memberCount id := by
  rcases apply_members db st with ⟨f, hf, hmap⟩ | ⟨row, rfl, -⟩
  · rw [Db.memberCount, hmap, List.countP_map]
    exact List.countP_congr fun m _ => by simp [hf.enterpriseId]
  · exact absurd rfl (hst row)

theorem Db.Counted.apply {db : Db} {st : Stmt} (h : db.Counted) (hst : ¬st.Recounts) :
    (st.apply db).Counted := by
  have hcount : ∀ id, (st.apply db).memberCount id = db.memberCount id :=
    memberCount_apply fun row heq => hst (heq ▸ trivial)
  have hback : ∀ e' ∈ (st.apply db).enterprises, ∃ e ∈ db.enterprises,
      e.id = e'.id ∧ e.inventoryCount = e'.inventoryCount := by
    intro e' he'
    cases st with
    | setPolicy id maxAccounts state now =>
        obtain ⟨e, he, rfl⟩ := List.mem_map.mp he'
        exact ⟨e, he, by split <;> rfl, by split <;> rfl⟩
    | writeCredentials identity c now =>
        refine ⟨e', ?_, rfl, rfl⟩
        simp only [Stmt.apply, Db.writeCredentials] at he'
        split at he'
        · split at he' <;> exact he'
        · exact he'
    | deleteHold held =>
        refine ⟨e', ?_, rfl, rfl⟩
        simp only [Stmt.apply] at he'
        split at he' <;> exact he'
    | _ => first | exact ⟨e', he', rfl, rfl⟩ | exact absurd trivial hst
  intro e' he'
  obtain ⟨e, he, hid, hn⟩ := hback e' he'
  rw [hcount, ← hid, ← hn]
  exact h e he

theorem Db.Grown.memberCount {db db' : Db} {rows : List Inventory} (h : db.Grown db' rows)
    (id : String) : db'.memberCount id
      = db.memberCount id + rows.countP fun m => m.enterpriseId = id := by
  rw [Db.memberCount, h.members, List.countP_append]
  rfl

theorem Db.Grown.counted {db db' : Db} {rows : List Inventory} (h : db.Grown db' rows)
    (hc : db.Counted) : db'.Counted := by
  intro e' he'
  rw [h.enterprises] at he'
  obtain ⟨e, he, rfl⟩ := List.mem_map.mp he'
  have hcount := h.memberCount e.id
  dsimp only
  rw [hcount, hc e he]

theorem Kept.counted {db db' : Db} (h : Kept db db') (hc : db.Counted) : db'.Counted := by
  intro e he
  rw [h.enterprises] at he
  rw [h.memberCount]
  exact hc e he

/-- The loop of `correctInventoryCounts` leaves every counter right. -/
theorem corrections_counted {drifts : List InventoryDrift} {v : World}
    (hactual : ∀ d ∈ drifts, d.actual = w.db.memberCount d.enterpriseId)
    (hmem : v.db.members = w.db.members)
    (hcount : ∀ e ∈ v.db.enterprises, e.inventoryCount = w.db.memberCount e.id
      ∨ ∃ d ∈ drifts, d.enterpriseId = e.id)
    (hrun : (drifts.forM fun d => exec (.setInventoryCount d.enterpriseId d.actual)) v
      = (.ok ⟨⟩, w')) : w'.db.Counted := by
  have hend := Tx.forM_eq_ok (fun l (v : World) => v.db.members = w.db.members
      ∧ (∀ d ∈ l, d.actual = w.db.memberCount d.enterpriseId)
      ∧ ∀ e ∈ v.db.enterprises, e.inventoryCount = w.db.memberCount e.id
        ∨ ∃ d ∈ l, d.enterpriseId = e.id) (fun d l v v' hv hstep => ?_)
    ⟨hmem, hactual, hcount⟩ hrun
  · obtain ⟨hmem', -, hright⟩ := hend
    intro e he
    rcases hright e he with hn | ⟨d, hd, -⟩
    · rw [hn, Db.memberCount, Db.memberCount, hmem']
    · exact absurd hd List.not_mem_nil
  · obtain ⟨hmem', hactual', hright⟩ := hv
    obtain rfl := (Prod.mk.inj hstep).2
    refine ⟨hmem', fun d' hd' => hactual' d' (List.mem_cons_of_mem d hd'), fun e' he' => ?_⟩
    obtain ⟨e, he, rfl⟩ := List.mem_map.mp he'
    by_cases hid : e.id = d.enterpriseId
    · rw [if_pos hid]
      refine .inl ?_
      dsimp only
      rw [hactual' d List.mem_cons_self, hid]
    · rw [if_neg hid]
      rcases hright e he with hn | ⟨d', hd', hd'e⟩
      · exact .inl hn
      · rcases List.mem_cons.mp hd' with rfl | hd'
        · exact absurd hd'e.symm hid
        · exact .inr ⟨d', hd', hd'e⟩

/-- The correction never throws: neither of its loops does. -/
theorem correctInventoryDrift_run (env : Env) (w : World) : ∃ w₁ w₂,
    ((inventoryDrifts w.db).forM fun d => exec (.setInventoryCount d.enterpriseId d.actual)) w = (.ok ⟨⟩, w₁)
    ∧ ((inventoryDrifts w.db).forM fun drift =>
        recordEvent env { action := "enterprise_inventory_drift", enterpriseId := drift.enterpriseId,
                          detail := "stored=" ++ toString drift.stored ++ " actual="
                            ++ toString drift.actual }) w₁ = (.ok ⟨⟩, w₂)
    ∧ correctInventoryDrift env w = (.ok (inventoryDrifts w.db).length, w₂) := by
  obtain ⟨w₁, hloop⟩ := Tx.forM_total
    (f := fun d : InventoryDrift => exec (.setInventoryCount d.enterpriseId d.actual))
    (fun d s => ⟨_, exec_run _ s⟩) (inventoryDrifts w.db) w
  obtain ⟨w₂, hevents⟩ := Tx.forM_total (f := fun drift : InventoryDrift =>
    recordEvent env { action := "enterprise_inventory_drift", enterpriseId := drift.enterpriseId,
                      detail := "stored=" ++ toString drift.stored ++ " actual="
                        ++ toString drift.actual })
    (fun d s => by
      obtain ⟨events, hev⟩ := recordEvent_run env
        { action := "enterprise_inventory_drift", enterpriseId := d.enterpriseId,
          detail := "stored=" ++ toString d.stored ++ " actual=" ++ toString d.actual } s
      exact ⟨_, hev⟩) (inventoryDrifts w.db) w₁
  have hcounts : correctInventoryCounts w = (.ok (inventoryDrifts w.db), w₁) := by
    rw [correctInventoryCounts, Tx.bind_ok (select_run _ _), Tx.bind_ok hloop]
    rfl
  refine ⟨w₁, w₂, hloop, hevents, ?_⟩
  rw [correctInventoryDrift, transaction, Tx.transaction_eq_ok, Tx.bind_ok hcounts,
    Tx.bind_ok hevents]
  rfl

/-- Start-up correction: whatever the counters were, they are right after it. -/
theorem correctInventoryDrift_counted (env : Env) (w : World) :
    (step env w .correctInventoryDrift).db.Counted := by
  have hstate : step env w .correctInventoryDrift = (correctInventoryDrift env w).2 :=
    bind_pure_state _ _ w
  obtain ⟨w₁, w₂, hloop, hevents, hrun⟩ := correctInventoryDrift_run env w
  rw [hstate, hrun]
  have hright : w₁.db.Counted := by
    refine corrections_counted (w := w) ?_ rfl (fun e he => ?_) hloop
    · intro d hd
      obtain ⟨e, -, rfl⟩ := List.mem_map.mp hd
      rfl
    · by_cases hn : e.inventoryCount = w.db.memberCount e.id
      · exact .inl hn
      · refine .inr ⟨_, List.mem_map_of_mem (List.mem_filter.mpr
          ⟨mem_schedulingEnterprises.mpr he, by simpa using hn⟩), rfl⟩
  -- events leave the counters alone
  refine Tx.forM_eq_ok (fun _ (v : World) => v.db.Counted) (fun d l v v' hv hstep => ?_) hright
    hevents
  obtain ⟨events, hev⟩ := recordEvent_run env
    { action := "enterprise_inventory_drift", enterpriseId := d.enterpriseId,
      detail := "stored=" ++ toString d.stored ++ " actual=" ++ toString d.actual } v
  obtain rfl := (Prod.mk.inj (hev.symm.trans hstep)).2
  exact hv

theorem step_counted (env : Env) (w : World) (op : Op) (h : w.db.Counted) :
    (step env w op).db.Counted := by
  by_cases hres : op.Reserves
  · rcases reserves_batch env w hres with hsame | ⟨v, plan, rows, hbatch⟩
    · rw [hsame]
      exact h
    · exact hbatch.grown.counted (hbatch.kept.counted h)
  by_cases hcorrect : op = .correctInventoryDrift
  · rw [hcorrect]
    exact correctInventoryDrift_counted env w
  have hkeep : ∀ v v', Step env op.permits v v' → v.db.Counted → v'.db.Counted := by
    intro v v' hstep hv
    cases hstep with
    | idle _ hdb => exact hdb ▸ hv
    | exec st hst _ _ hdb =>
        rw [hdb]
        refine hv.apply fun hrec => ?_
        cases st with
        | insertMember row => exact hres hst
        | incrementInventory id => exact hres hst
        | setInventoryCount id n => exact hcorrect hst
        | _ => exact hrec
  exact Steps.invariant hkeep (steps_of_step env w op) h

theorem run_counted (env : Env) (w : World) (ops : List Op) (h : w.db.Counted) :
    (run env w ops).db.Counted := by
  induction ops generalizing w with
  | nil => exact h
  | cons op ops ih => exact ih _ (step_counted env w op h)

/-! ## Ordinals -/

/-- Every ordinal has been handed out. -/
def Db.Below (db : Db) : Prop := ∀ m ∈ db.members, m.ordinal < db.settings.nextOrdinal

theorem nextOrdinal_apply {st : Stmt} (hg : st.Guard env w w') :
    w.db.settings.nextOrdinal ≤ (st.apply w.db).settings.nextOrdinal := by
  cases st with
  | setNextOrdinal n => exact Nat.le_of_lt hg
  | writeCredentials identity c now =>
      simp only [Stmt.apply, Db.writeCredentials]
      split
      · split <;> exact Nat.le_refl _
      · exact Nat.le_refl _
  | deleteHold held =>
      simp only [Stmt.apply]
      split <;> exact Nat.le_refl _
  | _ => exact Nat.le_refl _

theorem Step.below (hstep : Step env A w w') (h : w.db.Below) :
    w'.db.Below ∧ w.db.settings.nextOrdinal ≤ w'.db.settings.nextOrdinal := by
  cases hstep with
  | idle _ hdb =>
      rw [hdb]
      exact ⟨h, Nat.le_refl _⟩
  | exec st _ _ hg hdb =>
      have hle := nextOrdinal_apply hg
      rw [hdb]
      refine ⟨fun m hm => ?_, hle⟩
      rcases mem_members_apply hm with ⟨m₀, hm₀, -, -, hord⟩ | rfl
      · have hold := h m₀ hm₀
        omega
      · exact Nat.lt_of_lt_of_le hg.2.2.2.2.1 hle

theorem step_below (env : Env) (w : World) (op : Op) (h : w.db.Below) :
    (step env w op).db.Below
      ∧ w.db.settings.nextOrdinal ≤ (step env w op).db.settings.nextOrdinal := by
  have hkeep : ∀ v v', Step env op.permits v v' →
      v.db.Below ∧ w.db.settings.nextOrdinal ≤ v.db.settings.nextOrdinal →
      v'.db.Below ∧ w.db.settings.nextOrdinal ≤ v'.db.settings.nextOrdinal := by
    intro v v' hstep hv
    have hnext := hstep.below hv.1
    exact ⟨hnext.1, Nat.le_trans hv.2 hnext.2⟩
  exact Steps.invariant hkeep (steps_of_step env w op) ⟨h, Nat.le_refl _⟩

/-! ## Accounts outside the pool -/

/-- The account is in the table and no member's. -/
def Db.Foreign (db : Db) (a : ProxyAccount) : Prop :=
  a ∈ db.accounts ∧ db.inventory a.identity = none

/-- The operation is a write of this account from outside the store. -/
def Op.Overwrites (identity : String) : Op → Prop
  | .external (.credentials i _) | .external (.delete i) => i = identity
  | _ => False

theorem Db.Grown.foreign {db db' : Db} {rows : List Inventory} (h : db.Grown db' rows)
    {a : ProxyAccount} (ha : db.Foreign a) : db'.Foreign a := by
  obtain ⟨added, hadded, -⟩ := h.accounts
  refine ⟨hadded ▸ List.mem_append_left _ ha.1, ?_⟩
  rw [Db.inventory, h.members, List.find?_append]
  have hnew : (rows.find? fun m => m.identity = a.identity) = none := by
    refine List.find?_eq_none.mpr fun m hm hid => ?_
    -- the account would have made the name collide
    have hfree := h.fresh m hm
    rw [Db.collides, List.any_eq_false] at hfree
    refine hfree a ha.1 ?_
    simp [show a.identity = m.identity by simpa using Eq.symm (of_decide_eq_true hid)]
  rw [hnew, Option.or_none]
  exact ha.2

theorem Db.Foreign.apply {db : Db} {a : ProxyAccount} (ha : db.Foreign a) {st : Stmt}
    (hins : ∀ row, st ≠ .insertMember row) (hdel : st ≠ .deleteAccount a.identity)
    (hwrite : ∀ c t, st ≠ .writeCredentials a.identity c t) : (st.apply db).Foreign a := by
  constructor
  · cases st with
    | writeCredentials identity c t =>
        have hother : a.identity ≠ identity := fun h => hwrite c t (by rw [h])
        have hmem : a ∈ db.accounts.map fun a =>
            if a.identity = identity then { a with credentials := c, updatedAt := t } else a :=
          List.mem_map.mpr ⟨a, ha.1, if_neg hother⟩
        simp only [Stmt.apply, Db.writeCredentials]
        split
        · split <;> exact hmem
        · exact hmem
    | insertAccount row => exact List.mem_append_left _ ha.1
    | deleteAccount identity =>
        refine List.mem_filter.mpr ⟨ha.1, ?_⟩
        simpa using fun h : a.identity = identity => hdel (by rw [h])
    | deleteHold held =>
        simp only [Stmt.apply]
        split <;> exact ha.1
    | _ => exact ha.1
  · rcases apply_members db st with ⟨f, hf, hmap⟩ | ⟨row, hst, -⟩
    · rw [Db.inventory, hmap, find?_map hf.identity, Option.map_eq_none_iff]
      exact ha.2
    · exact absurd hst (hins row)

/-- The fenced writes of credentials start from a member's row. -/
theorem recredentials_foreign (env : Env) {op : Op} {a : ProxyAccount} (ha : w.db.Foreign a)
    (hop : op.Recredentials a.identity) (hext : ¬op.Overwrites a.identity) :
    (step env w op).db = w.db := by
  cases op with
  | recoverUnauthorized held token =>
      have hout : Outdated w.db held := by
        intro row m hrow hm
        rw [(heldRow_kind hrow).2, show held.memberIdentity = a.identity from hop, ha.2] at hm
        cases hm
      have hreport : (Op.recoverUnauthorized held token).Reports held := rfl
      exact (reports_outdated hout hreport).2
  | mutateWorkerCredential identity fence owner mutation =>
      obtain rfl : identity = a.identity := hop
      have hguard : workerGuard env a.identity fence.stage fence owner w = (.ok false, w) := by
        simp [workerGuard, Tx.bind_run, ha.2]
      simp [step, Op.exec, mutateWorkerCredential, transaction, Tx.transaction, Tx.bind_run, hguard]
  | external write =>
      cases write with
      | credentials identity c => exact absurd hop hext
      | _ => exact hop.elim
  | _ => exact hop.elim

/-- No operation of the store adopts or modifies an account outside the pool. -/
theorem step_foreign (env : Env) (w : World) {op : Op} {a : ProxyAccount} (ha : w.db.Foreign a)
    (hop : ¬op.Overwrites a.identity) : (step env w op).db.Foreign a := by
  by_cases hres : op.Reserves
  · rcases reserves_batch env w hres with hsame | ⟨v, plan, rows, hbatch⟩
    · rw [hsame]
      exact ha
    · refine hbatch.grown.foreign ⟨?_, ?_⟩
      · rw [hbatch.kept.accounts]
        exact ha.1
      · exact hbatch.kept.inventory_none.mpr ha.2
  by_cases hcred : op.Recredentials a.identity
  · rw [recredentials_foreign env ha hcred hop]
    exact ha
  have hkeep : ∀ v v', Step env op.permits v v' → v.db.Foreign a → v'.db.Foreign a := by
    intro v v' hstep hv
    cases hstep with
    | idle _ hdb => exact hdb ▸ hv
    | exec st hst _ _ hdb =>
        rw [hdb]
        refine hv.apply ?_ ?_ ?_
        · rintro row rfl
          exact hres hst
        · rintro rfl
          obtain rfl : op = _ := hst
          exact hop rfl
        · rintro c t rfl
          exact hcred hst
  exact Steps.invariant hkeep (steps_of_step env w op) ha

/-! ## The result -/

theorem step_members (env : Env) (w : World) {op : Op} (hop : ¬op.Reserves) :
    ∀ m ∈ (step env w op).db.members, (w.db.inventory m.identity).isSome := by
  have hkeep : ∀ v v', Step env op.permits v v' →
      (∀ m ∈ v.db.members, (w.db.inventory m.identity).isSome) →
      ∀ m ∈ v'.db.members, (w.db.inventory m.identity).isSome := by
    intro v v' hstep hv m hm
    cases hstep with
    | idle _ hdb => exact hv m (hdb ▸ hm)
    | exec st hst _ _ hdb =>
        rcases mem_members_apply (hdb ▸ hm) with ⟨m₀, hm₀, hid, -⟩ | rfl
        · exact hid ▸ hv m₀ hm₀
        · exact absurd hst hop
  exact Steps.invariant hkeep (steps_of_step env w op) fun m hm =>
    find?_key_isSome.mpr ⟨m, hm, rfl⟩

/-- A member the tables did not have before is one of the batch. -/
theorem created_batch (env : Env) (w : World) (op : Op) {m : Inventory}
    (hm : m ∈ (step env w op).db.members) (hnew : w.db.inventory m.identity = none) :
    op.Reserves ∧ ∃ v plan rows, Batch env op.eligible w v (step env w op) plan rows ∧ m ∈ rows := by
  by_cases hres : op.Reserves
  · refine ⟨hres, ?_⟩
    rcases reserves_batch env w hres with hsame | ⟨v, plan, rows, hbatch⟩
    · rw [hsame] at hm
      exact absurd hnew (Option.isSome_iff_ne_none.mp (find?_key_isSome.mpr ⟨m, hm, rfl⟩))
    · refine ⟨v, plan, rows, hbatch, ?_⟩
      rw [hbatch.grown.members] at hm
      rcases List.mem_append.mp hm with hold | hrow
      · have hnone := hbatch.kept.inventory_none.mpr hnew
        exact absurd hnone (Option.isSome_iff_ne_none.mp (find?_key_isSome.mpr ⟨m, hold, rfl⟩))
      · exact hrow
  · have hsome := step_members env w hres m hm
    rw [hnew] at hsome
    cases hsome

/-- Accounting of the pool, in every state that start-up correction and any run lead to, and for
any operation from there: the counters are exact; ordinals are distinct and handed out upwards; a
new member comes from a reservation that is not paused, for an active and eligible enterprise with
room for it, under a name no account has; a batch raises the supply to the idle target at most;
and an account that is no member's is left alone. -/
theorem inventory_accounting (env : Env) (w : World) (hI : w.db.Integrity) (hb : w.db.Below)
    (ops : List Op) (op : Op) :
    let v := run env (step env w .correctInventoryDrift) ops
    let v' := step env v op
    (∀ e ∈ v.db.enterprises, e.inventoryCount = v.db.memberCount e.id)
    ∧ Keyed (·.ordinal) v.db.members
    ∧ (∀ m ∈ v.db.members, m.ordinal < v.db.settings.nextOrdinal)
    ∧ v.db.settings.nextOrdinal ≤ v'.db.settings.nextOrdinal
    ∧ (∀ m ∈ v'.db.members, v.db.inventory m.identity = none →
        op.Reserves ∧ v.db.settings.paused = false ∧ v.db.collides m.identity = false
        ∧ ∃ e ∈ v.db.enterprises, e.id = m.enterpriseId ∧ e.state = .active ∧ e.id ∈ op.eligible
          ∧ e.inventoryCount < e.maxAccounts ∧ v'.db.memberCount e.id ≤ e.maxAccounts)
    ∧ (op.Reserves → v'.db = v.db ∨ ∃ u r : World, u.Ahead v ∧ reclaim env u = (.ok ⟨⟩, r)
        ∧ r.ticks < v'.ticks
        ∧ v'.db.supply (env.clock r.ticks)
          ≤ max (r.db.supply (env.clock r.ticks)) v.db.settings.idleTarget
        ∧ (v.db.Verified → v'.db.supply (env.clock r.ticks)
          ≤ max (v.db.supply (env.clock r.ticks)) v.db.settings.idleTarget))
    ∧ (w.db.Verified → VerifyingRun env (fun _ c => c.usable = true) w (.correctInventoryDrift :: ops) →
        v.db.Verified)
    ∧ ∀ a ∈ v.db.accounts, v.db.inventory a.identity = none → ¬op.Overwrites a.identity →
        a ∈ v'.db.accounts ∧ v'.db.inventory a.identity = none := by
  intro v v'
  have hIv : v.db.Integrity := run_integrity env hI (.correctInventoryDrift :: ops)
  have hbv : v.db.Below := by
    refine run_invariant (P := fun v => v.db.Below) (fun op v v' hstep h => (hstep.below h).1) _ ?_ ops
    exact (step_below env w _ hb).1
  have hcv : v.db.Counted := run_counted env _ ops (correctInventoryDrift_counted env w)
  refine ⟨hcv, hIv.ordinals, hbv, (step_below env v op hbv).2, ?_, ?_, ?_, ?_⟩
  · intro m hm hnew
    obtain ⟨hres, r, plan, rows, hbatch, hrow⟩ := created_batch env v op hm hnew
    obtain ⟨e, he, hid, hactive, helig, hroom⟩ := hbatch.room hrow
    have hone : 0 < rows.countP fun r => r.enterpriseId = e.id :=
      List.countP_pos_iff.mpr ⟨m, hrow, by simp [hid]⟩
    have hcount : v'.db.memberCount e.id = _ := hbatch.grown.memberCount e.id
    rw [hbatch.kept.memberCount, ← hcv e he] at hcount
    have hfree := hbatch.grown.fresh m hrow
    rw [Db.collides, hbatch.kept.accounts] at hfree
    exact ⟨hres, hbatch.unpaused hrow, hfree, e, he, hid, hactive, helig, by omega, by omega⟩
  · intro hres
    rcases reserves_batch env v hres with hsame | ⟨r, plan, rows, hbatch⟩
    · exact .inl hsame
    · obtain ⟨u, hu, hsweep⟩ := hbatch.swept
      have hIu : u.db.Integrity := hu.db ▸ hIv
      have hIr : r.db.Integrity :=
        Steps.invariant (fun _ _ hstep h => hstep.integrity h) (reclaim_steps hsweep) hIu
      have hsup := hbatch.supply hIr
      refine .inr ⟨u, r, hu, hsweep, hbatch.reading, hsup, fun hver => ?_⟩
      have hcalm := (reclaim_swept hIu (hu.db ▸ hver) hsweep).supply r.ticks (Nat.le_refl _)
      rw [hu.db] at hcalm
      exact Nat.le_trans hsup (max_le_max_right _ hcalm)
  · intro hver hrun
    have hend := run_verifiedBy env hI hver hrun
    exact hend
  · intro a ha hforeign hop
    exact step_foreign env v ⟨ha, hforeign⟩ hop

theorem inventory_accounting_sample :
    let v := run Sample.env (step Sample.env Sample.world .correctInventoryDrift)
      [.acquire Sample.caller false none, .reserve ["main"]]
    (∀ e ∈ v.db.enterprises, e.inventoryCount = v.db.memberCount e.id)
    ∧ Keyed (·.ordinal) v.db.members
    ∧ ∀ m ∈ v.db.members, m.ordinal < v.db.settings.nextOrdinal := by
  have hb : ∀ m ∈ Sample.world.db.members, m.ordinal < Sample.world.db.settings.nextOrdinal := by
    decide
  have h := inventory_accounting Sample.env Sample.world Sample.db_initial.toIntegrity hb
    [.acquire Sample.caller false none, .reserve ["main"]] .reclaim
  exact ⟨h.1, h.2.1, h.2.2.1⟩

end GhcpConsole.Pool
