import GhcpConsole.Pool.Supply

/-!
# Reservations

What a reservation leaves behind: the tables of the sweep with new members, an account and a
counted place for each (`Db.Grown`), in the enterprises the plan picked (`Batch`). Everything
claimed about inventory, caps, supply and names is read off these two.
-/

namespace GhcpConsole.Pool

variable {env : Env} {A : Stmt → Prop} {w w' : World}

/-- `db'` is `db` with these new members: with their accounts, counted in their enterprises. -/
structure Db.Grown (db db' : Db) (rows : List Inventory) : Prop where
  members : db'.members = db.members ++ rows
  accounts : ∃ added, db'.accounts = db.accounts ++ added
    ∧ ∀ m ∈ rows, ∃ a ∈ added, a.identity = m.identity
  enterprises : db'.enterprises = db.enterprises.map fun e =>
    { e with inventoryCount := e.inventoryCount + rows.countP fun m => m.enterpriseId = e.id }
  leases : db'.leases = db.leases
  holds : db'.holds = db.holds
  catalogHolds : db'.catalogHolds = db.catalogHolds
  settings : ∃ n, db'.settings = { db.settings with nextOrdinal := n }
  fresh : ∀ m ∈ rows, db.collides m.identity = false

/-- Nothing but `next_ordinal` and the events has changed. -/
theorem Db.Grown.nil {db db' : Db} (hm : db'.members = db.members)
    (ha : db'.accounts = db.accounts) (he : db'.enterprises = db.enterprises)
    (hl : db'.leases = db.leases) (hh : db'.holds = db.holds)
    (hc : db'.catalogHolds = db.catalogHolds)
    (hs : ∃ n, db'.settings = { db.settings with nextOrdinal := n }) : db.Grown db' [] where
  members := by rw [hm, List.append_nil]
  accounts := ⟨[], by rw [ha, List.append_nil], fun _ h => absurd h List.not_mem_nil⟩
  enterprises := by simp [he]
  leases := hl
  holds := hh
  catalogHolds := hc
  settings := hs
  fresh := fun _ h => absurd h List.not_mem_nil

theorem Db.collides_append {db db' : Db} {added : List ProxyAccount} {identity : String}
    (h : db'.accounts = db.accounts ++ added) (hfree : db'.collides identity = false) :
    db.collides identity = false := by
  rw [Db.collides, h, List.any_append, Bool.or_eq_false_iff] at hfree
  exact hfree.1

theorem Db.Grown.trans {db db₁ db₂ : Db} {rows rows' : List Inventory} (h : db.Grown db₁ rows)
    (h' : db₁.Grown db₂ rows') : db.Grown db₂ (rows ++ rows') where
  members := by rw [h'.members, h.members, List.append_assoc]
  accounts := by
    obtain ⟨added, hadded, hrows⟩ := h.accounts
    obtain ⟨added', hadded', hrows'⟩ := h'.accounts
    refine ⟨added ++ added', by rw [hadded', hadded, List.append_assoc], fun m hm => ?_⟩
    rcases List.mem_append.mp hm with hm | hm
    · obtain ⟨a, ha, hid⟩ := hrows m hm
      exact ⟨a, List.mem_append_left _ ha, hid⟩
    · obtain ⟨a, ha, hid⟩ := hrows' m hm
      exact ⟨a, List.mem_append_right _ ha, hid⟩
  enterprises := by
    rw [h'.enterprises, h.enterprises, List.map_map]
    refine List.map_congr_left fun e _ => ?_
    simp [List.countP_append, Nat.add_assoc]
  leases := h'.leases.trans h.leases
  holds := h'.holds.trans h.holds
  catalogHolds := h'.catalogHolds.trans h.catalogHolds
  settings := by
    obtain ⟨n, hn⟩ := h.settings
    obtain ⟨n', hn'⟩ := h'.settings
    exact ⟨n', by rw [hn', hn]⟩
  fresh := fun m hm => by
    rcases List.mem_append.mp hm with hm | hm
    · exact h.fresh m hm
    · obtain ⟨added, hadded, -⟩ := h.accounts
      exact Db.collides_append hadded (h'.fresh m hm)

/-! ## One reservation -/

theorem insertMember_ok {identity enterpriseId : String} {ordinal : Nat}
    (hfree : w.db.collides identity = false)
    (hrun : insertMember env identity ordinal enterpriseId w = (.ok (), w')) :
    ∃ row : Inventory, row.enterpriseId = enterpriseId ∧ w.db.Grown w'.db [row]
      ∧ w.Before w' := by
  rw [insertMember, Tx.bind_ok (now_run env w)] at hrun
  obtain ⟨_, w₁, hreq, hrun⟩ := Tx.bind_eq_ok.mp hrun
  obtain ⟨-, rfl⟩ := require_ok hreq
  rw [Tx.bind_ok (exec_run _ _), Tx.bind_ok (randomUuid_run env _)] at hrun
  obtain ⟨_, w₂, hreq₂, hrun⟩ := Tx.bind_eq_ok.mp hrun
  obtain ⟨-, rfl⟩ := require_ok hreq₂
  rw [Tx.bind_ok (exec_run _ _), exec_run] at hrun
  obtain rfl := (Prod.mk.inj hrun).2
  refine ⟨newMember identity (env.uuid w.uuids) enterpriseId ordinal (env.clock w.ticks), rfl, ?_,
    ⟨Nat.le_succ _, Nat.le_succ _⟩⟩
  exact {
    members := rfl
    accounts := ⟨[newAccount identity enterpriseId (env.clock w.ticks)], rfl,
      fun m hm => ⟨_, List.mem_singleton_self _, by rw [List.mem_singleton.mp hm]; rfl⟩⟩
    enterprises := by
      refine List.map_congr_left fun e _ => ?_
      by_cases he : e.id = enterpriseId
      · simp [he, newMember]
      · simp [he, Ne.symm he, newMember]
    leases := rfl
    holds := rfl
    catalogHolds := rfl
    settings := ⟨_, rfl⟩
    fresh := fun m hm => by rw [List.mem_singleton.mp hm]; exact hfree }

/-- What `reserveCandidate` answers and leaves: one new member, or a name catalog used up. -/
def Reserved (enterpriseId : String) (db db' : Db) : Except StoreError Inventory → Prop
  | .ok _ => ∃ row : Inventory, row.enterpriseId = enterpriseId ∧ db.Grown db' [row]
  | .error _ => db.Grown db' []

theorem reserveFrom_ok {enterpriseId : String} {res : Except StoreError Inventory} :
    ∀ {left ordinal : Nat} {w w' : World},
      reserveFrom env enterpriseId left ordinal w = (.ok res, w') →
      Reserved enterpriseId w.db w'.db res ∧ w.Before w'
  | 0, _, w, w', hrun => by
      obtain ⟨rfl, rfl⟩ := by simpa [reserveFrom] using hrun
      exact ⟨.nil rfl rfl rfl rfl rfl rfl ⟨_, rfl⟩, .refl w⟩
  | left + 1, ordinal, w, w', hrun => by
      rw [reserveFrom, Tx.bind_ok (exec_run _ _), Tx.bind_ok (select_run _ _)] at hrun
      have hnext : w.db.Grown ((Stmt.setNextOrdinal (ordinal + 1)).apply w.db) [] :=
        .nil rfl rfl rfl rfl rfl rfl ⟨_, rfl⟩
      split at hrun
      · -- the name is taken: the scan goes on
        obtain ⟨hres, hb⟩ := reserveFrom_ok hrun
        refine ⟨?_, ⟨hb.ticks, hb.uuids⟩⟩
        cases res with
        | ok out =>
            obtain ⟨row, hrow, hgrown⟩ := hres
            exact ⟨row, hrow, hnext.trans hgrown⟩
        | error e => exact hnext.trans hres
      · rename_i hfree
        obtain ⟨_, w₁, hins, hrun⟩ := Tx.bind_eq_ok.mp hrun
        obtain ⟨row, hrow, hgrown, hb⟩ := insertMember_ok (by simpa using hfree) hins
        obtain ⟨events, hev⟩ := recordEvent_run env
          { action := "name_reserved", identity := accountName env.catalog ordinal } w₁
        rw [Tx.bind_ok hev, Tx.bind_ok (select_run _ _)] at hrun
        have hevent : w₁.db.Grown { w₁.db with events := events } [] :=
          .nil rfl rfl rfl rfl rfl rfl ⟨_, rfl⟩
        generalize ({ w₁.db with events := events }.inventory (accountName env.catalog ordinal))
          = found at hrun
        cases found with
        | none => simp at hrun
        | some out =>
            obtain ⟨rfl, rfl⟩ := by simpa using hrun
            exact ⟨⟨row, hrow, (hnext.trans hgrown).trans hevent⟩,
              ⟨Nat.le_succ_of_le hb.ticks, hb.uuids⟩⟩

theorem reserveCandidate_ok {enterpriseId : String} {res : Except StoreError Inventory}
    (hrun : reserveCandidate env enterpriseId w = (.ok res, w')) :
    Reserved enterpriseId w.db w'.db res ∧ w.Before w' := by
  rw [reserveCandidate, Tx.bind_ok (select_run _ _)] at hrun
  exact reserveFrom_ok hrun

/-- The loop reserves in the order of the plan, and stops early at most. -/
theorem reserveAll_ok : ∀ {plan : List String} {n : Nat} {w w' : World},
    reserveAll env plan w = (.ok n, w') →
    ∃ rows, w.db.Grown w'.db rows ∧ rows.map (·.enterpriseId) <+: plan ∧ w.Before w'
  | [], n, w, w', hrun => by
      obtain ⟨rfl, rfl⟩ := by simpa [reserveAll] using hrun
      exact ⟨[], .nil rfl rfl rfl rfl rfl rfl ⟨_, rfl⟩, List.nil_prefix, .refl w⟩
  | enterpriseId :: rest, n, w, w', hrun => by
      obtain ⟨res, w₁, hone, hrun⟩ := Tx.bind_eq_ok.mp hrun
      obtain ⟨hres, hb⟩ := reserveCandidate_ok hone
      cases res with
      | error e =>
          obtain ⟨rfl, rfl⟩ := by simpa using hrun
          exact ⟨[], hres, List.nil_prefix, hb⟩
      | ok out =>
          obtain ⟨m, w₂, hall, hret⟩ := Tx.bind_eq_ok.mp hrun
          obtain ⟨-, rfl⟩ := by simpa using hret
          obtain ⟨row, hrow, hgrown⟩ := hres
          obtain ⟨rows, hrows, hpre, hb'⟩ := reserveAll_ok hall
          refine ⟨row :: rows, hgrown.trans hrows, ?_, hb.trans hb'⟩
          rw [List.map_cons, hrow]
          exact List.cons_prefix_cons.mpr ⟨rfl, hpre⟩

/-! ## One batch -/

/-- A reservation batch: the sweep to `v`, the plan for the supply it leaves at its next reading of
the clock, and new members in the order of the plan. -/
structure Batch (env : Env) (eligible : List String) (w v w' : World) (plan : List String)
    (rows : List Inventory) : Prop where
  swept : ∃ u : World, u.Ahead w ∧ reclaim env u = (.ok ⟨⟩, v)
  reading : v.ticks < w'.ticks
  planned : ∃ limit, planReplenishment (schedulingEnterprises w.db) eligible
    (poolSupply v.db (env.clock v.ticks)) v.db.settings v.db.settings.nextOrdinal limit = .ok plan
  grown : v.db.Grown w'.db rows
  picked : rows.map (·.enterpriseId) <+: plan

theorem ofExcept_ok {α : Type} {res : Except StoreError α} {a : α}
    (hrun : ofExcept res w = (.ok a, w')) : res = .ok a ∧ w' = w := by
  cases res with
  | ok b =>
      obtain ⟨rfl, rfl⟩ := by simpa [ofExcept, Tx.rethrow] using hrun
      exact ⟨rfl, rfl⟩
  | error e => simp [ofExcept, Tx.rethrow] at hrun

theorem planBatch_ok {eligible : List String} {limit : Nat} {plan : List String} {v : World}
    (hrun : planBatch env eligible limit w = (.ok plan, v)) :
    ∃ u, reclaim env w = (.ok ⟨⟩, u) ∧ v = { u with ticks := u.ticks + 1 }
      ∧ planReplenishment (schedulingEnterprises w.db) eligible
        (poolSupply u.db (env.clock u.ticks)) u.db.settings u.db.settings.nextOrdinal limit
          = .ok plan := by
  rw [planBatch, Tx.bind_ok (select_run _ _)] at hrun
  obtain ⟨_, u, hsweep, hrun⟩ := Tx.bind_eq_ok.mp hrun
  rw [Tx.bind_ok (now_run env _), Tx.bind_ok (select_run _ _), Tx.bind_ok (select_run _ _)] at hrun
  obtain ⟨hplan, rfl⟩ := ofExcept_ok hrun
  exact ⟨u, hsweep, rfl, hplan⟩

/-- The members a plan's batch creates, whatever runs after the planning. -/
theorem batch_of_planBatch {eligible : List String} {limit : Nat} {plan : List String}
    {u v : World} {rows : List Inventory} (hu : u.Ahead w)
    (hplan : planBatch env eligible limit u = (.ok plan, v)) (hgrown : v.db.Grown w'.db rows)
    (hpicked : rows.map (·.enterpriseId) <+: plan) (hb : v.Before w') :
    ∃ v, Batch env eligible w v w' plan rows := by
  obtain ⟨v₀, hsweep, rfl, hok⟩ := planBatch_ok hplan
  exact ⟨v₀, {
    swept := ⟨u, hu, hsweep⟩
    reading := hb.ticks
    planned := ⟨limit, hu.db ▸ hok⟩
    grown := hgrown
    picked := hpicked }⟩

theorem reserve_body_ok {eligible : List String}
    {res : Except StoreError (Option Inventory)} (hrun : (do
      let plan ← planBatch env eligible 1
      match plan with
      | [] => pure (.ok none)
      | enterpriseId :: _ => do
          match ← reserveCandidate env enterpriseId with
          | .ok row => pure (.ok (some row))
          | .error e => pure (.error e) : StoreM (Except StoreError (Option Inventory))) w
        = (.ok res, w')) : ∃ v plan rows, Batch env eligible w v w' plan rows := by
  obtain ⟨plan, v, hplan, hrun⟩ := Tx.bind_eq_ok.mp hrun
  cases plan with
  | nil =>
      obtain ⟨rfl, rfl⟩ := by simpa using hrun
      obtain ⟨v₀, hbatch⟩ := batch_of_planBatch (.refl w) hplan
        (.nil rfl rfl rfl rfl rfl rfl ⟨_, rfl⟩) List.nil_prefix (.refl v)
      exact ⟨v₀, [], [], hbatch⟩
  | cons enterpriseId rest =>
      obtain ⟨out, w₁, hone, hret⟩ := Tx.bind_eq_ok.mp hrun
      obtain ⟨hres, hb⟩ := reserveCandidate_ok hone
      cases out with
      | error e =>
          obtain ⟨rfl, rfl⟩ := by simpa using hret
          obtain ⟨v₀, hbatch⟩ := batch_of_planBatch (.refl w) hplan hres List.nil_prefix hb
          exact ⟨v₀, _, [], hbatch⟩
      | ok out =>
          obtain ⟨rfl, rfl⟩ := by simpa using hret
          obtain ⟨row, hrow, hgrown⟩ := hres
          have hpicked : [row].map (·.enterpriseId) <+: enterpriseId :: rest := by
            rw [List.map_singleton, hrow]
            exact List.cons_prefix_cons.mpr ⟨rfl, List.nil_prefix⟩
          obtain ⟨v₀, hbatch⟩ := batch_of_planBatch (.refl w) hplan hgrown hpicked hb
          exact ⟨v₀, _, [row], hbatch⟩

/-- The enterprises the caller of a reservation lets grow. -/
def Op.eligible : Op → List String
  | .reserve eligible | .reserveDeficit _ eligible => eligible
  | _ => []

theorem eligibleEnterprises_eq {ids eligible : List String}
    (h : eligibleEnterprises ids = .ok eligible) : eligible = ids := by
  rw [eligibleEnterprises] at h
  split at h
  · cases h
  · exact (Except.ok.inj h).symm

theorem bind_pure_state {α β : Type} (m : StoreM α) (f : α → β) (w : World) :
    ((m >>= fun a => pure (f a)) w).2 = (m w).2 := by
  rw [Tx.bind_run]
  rcases m w with ⟨_ | _, _⟩ <;> rfl

/-- A reservation is one batch, unless it is refused or rolled back. -/
theorem reserves_batch (env : Env) (w : World) {op : Op} (h : op.Reserves) :
    (step env w op).db = w.db
    ∨ ∃ v plan rows, Batch env op.eligible w v (step env w op) plan rows := by
  cases op with
  | reserve ids =>
      have hstate : step env w (.reserve ids) = (reserve env ids w).2 := bind_pure_state _ _ w
      rw [hstate, reserve, Tx.bind_run]
      cases helig : eligibleEnterprises ids with
      | error e => exact .inl rfl
      | ok eligible =>
          obtain rfl := eligibleEnterprises_eq helig
          change ((transaction _ >>= _) w).2.db = _ ∨ ∃ v plan rows, Batch env _ w v
            ((transaction _ >>= _) w).2 plan rows
          rw [Tx.bind_run]
          rcases hrun : transaction _ w with ⟨e | res, w₁⟩
          · obtain ⟨w₂, -, hroll⟩ := Tx.transaction_eq_error hrun
            exact .inl (by rw [hroll]; rfl)
          · have hsame : (ofExcept res w₁).2 = w₁ := by cases res <;> rfl
            dsimp only
            rw [hsame]
            exact .inr (reserve_body_ok (Tx.transaction_eq_ok.mp hrun))
  | reserveDeficit owner ids =>
      have hstate : step env w (.reserveDeficit owner ids) = (reserveDeficit env owner ids w).2 :=
        bind_pure_state _ _ w
      rw [hstate, reserveDeficit, Tx.bind_run]
      cases helig : eligibleEnterprises ids with
      | error e => exact .inl rfl
      | ok eligible =>
          obtain rfl := eligibleEnterprises_eq helig
          change (transaction _ w).2.db = _ ∨ ∃ v plan rows, Batch env _ w v
            (transaction _ w).2 plan rows
          rcases hrun : transaction _ w with ⟨e | n, w₁⟩
          · obtain ⟨w₂, -, hroll⟩ := Tx.transaction_eq_error hrun
            exact .inl (by rw [hroll]; rfl)
          · obtain ⟨owned, w₂, hown, hbody⟩ := Tx.bind_eq_ok.mp (Tx.transaction_eq_ok.mp hrun)
            have ha : w₂.Ahead w := by
              have hreads : (matchesOwner env (some owner) w).2.Ahead w := matchesOwner_reads _ w
              rwa [hown] at hreads
            cases owned with
            | false =>
                obtain ⟨-, rfl⟩ := by simpa using hbody
                exact .inl ha.db
            | true =>
                obtain ⟨plan, v, hplan, hall⟩ := Tx.bind_eq_ok.mp hbody
                obtain ⟨rows, hgrown, hpicked, hb⟩ := reserveAll_ok hall
                obtain ⟨v₀, hbatch⟩ := batch_of_planBatch ha hplan hgrown hpicked hb
                exact .inr ⟨v₀, plan, rows, hbatch⟩
  | _ => exact h.elim

end GhcpConsole.Pool
