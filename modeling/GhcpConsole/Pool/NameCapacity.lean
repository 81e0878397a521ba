import GhcpConsole.Pool.Accounting
import GhcpConsole.Pool.Startup

/-!
# Name capacity

ΣC_e over all enterprise rows. Seeding and policy edits check it; the first start that creates the
pool does not: `initializeEnterprise` writes the configured cap of `default` over the seeded one.
-/

namespace GhcpConsole.Pool

variable {env : Env} {A : Stmt → Prop} {w w' : World}

/-! ## Caps -/

/-- Ids and caps of the enterprise rows, all that ΣC_e depends on. -/
def Db.caps (db : Db) : List (String × Nat) := db.enterprises.map fun e => (e.id, e.maxAccounts)

/-- ΣC_e over the other enterprises. -/
def Db.capsWithout (db : Db) (id : String) : Nat :=
  ((db.enterprises.filter fun e => e.id ≠ id).map (·.maxAccounts)).sum

theorem capSum_caps (db : Db) : db.capSum = (db.caps.map (·.2)).sum := by
  rw [Db.capSum, Db.caps, List.map_map]
  rfl

theorem capsWithout_caps (db : Db) (id : String) :
    db.capsWithout id = ((db.caps.filter fun c => c.1 ≠ id).map (·.2)).sum := by
  rw [Db.capsWithout, Db.caps, List.filter_map, List.map_map]
  rfl

theorem keyed_caps {db : Db} : Keyed (·.id) db.enterprises ↔ Keyed (·.1) db.caps := by
  rw [Keyed, Keyed, Db.caps, List.map_map]
  rfl

theorem enterprise_isSome_caps {db : Db} {id : String} :
    (db.enterprise id).isSome ↔ ∃ c ∈ db.caps, c.1 = id := by
  rw [Db.enterprise, find?_key_isSome, Db.caps]
  simp

/-- Rewriting the cap of one row replaces its part of the sum. -/
theorem sum_set_cap {rows : List Enterprise} {id : String} {n : Nat} {f : Enterprise → Enterprise}
    (hf : ∀ e, (f e).maxAccounts = n) (hk : Keyed (·.id) rows) (hid : ∃ e ∈ rows, e.id = id) :
    ((rows.map fun e => if e.id = id then f e else e).map (·.maxAccounts)).sum
      = n + ((rows.filter fun e => e.id ≠ id).map (·.maxAccounts)).sum := by
  induction rows with
  | nil =>
      obtain ⟨e, he, -⟩ := hid
      exact absurd he List.not_mem_nil
  | cons e rows ih =>
      obtain ⟨hfresh, hrest⟩ : (∀ x ∈ rows, x.id ≠ e.id) ∧ Keyed (·.id) rows := by
        simpa [Keyed] using hk
      by_cases he : e.id = id
      · -- the row is the head, so no other row has its id
        have hother : ∀ x ∈ rows, x.id ≠ id := fun x hx => he ▸ hfresh x hx
        have hmap : rows.map (fun e => if e.id = id then f e else e) = rows := by
          conv_rhs => rw [← List.map_id rows]
          exact List.map_congr_left fun x hx => if_neg (hother x hx)
        have hfilter : rows.filter (fun e => e.id ≠ id) = rows :=
          List.filter_eq_self.mpr fun x hx => by simpa using hother x hx
        rw [List.map_cons, if_pos he, hmap, List.filter_cons_of_neg (by simp [he]), hfilter,
          List.map_cons, List.sum_cons, hf]
      · obtain ⟨d, hd, hdid⟩ := hid
        have hd' : d ∈ rows := by
          rcases List.mem_cons.mp hd with rfl | hd
          · exact absurd hdid he
          · exact hd
        have htail := ih hrest ⟨d, hd', hdid⟩
        simp only [List.map_cons, List.sum_cons, if_neg he, htail]
        simp [he]
        omega

theorem capSum_mapEnterprise {db : Db} {id : String} {n : Nat} {f : Enterprise → Enterprise}
    (hf : ∀ e, (f e).maxAccounts = n) (hk : Keyed (·.id) db.enterprises)
    (hid : (db.enterprise id).isSome) : (db.mapEnterprise id f).capSum = n + db.capsWithout id :=
  sum_set_cap hf hk (find?_key_isSome.mp hid)

/-! ## Operations of the store -/

theorem caps_mapEnterprise {db : Db} {id : String} {f : Enterprise → Enterprise}
    (hf : ∀ e, (f e).id = e.id ∧ (f e).maxAccounts = e.maxAccounts) :
    (db.mapEnterprise id f).caps = db.caps := by
  rw [Db.caps, Db.mapEnterprise, List.map_map]
  refine List.map_congr_left fun e _ => ?_
  simp only [Function.comp]
  split <;> simp [hf]

/-- Policy edits alone change a cap. -/
theorem caps_apply {db : Db} {st : Stmt} (hst : ∀ id m s t, st ≠ .setPolicy id m s t) :
    (st.apply db).caps = db.caps := by
  cases st with
  | setPolicy id m s t => exact absurd rfl (hst id m s t)
  | incrementInventory id => exact caps_mapEnterprise fun e => ⟨rfl, rfl⟩
  | setInventoryCount id n => exact caps_mapEnterprise fun e => ⟨rfl, rfl⟩
  | writeCredentials identity c now =>
      simp only [Stmt.apply, Db.writeCredentials]
      split
      · split <;> rfl
      · rfl
  | deleteHold held =>
      simp only [Stmt.apply]
      split <;> rfl
  | _ => rfl

theorem steps_caps (hsteps : Steps env A w w') (hA : ∀ id m s t, ¬A (.setPolicy id m s t)) :
    w'.db.caps = w.db.caps := by
  refine Steps.invariant (P := fun v => v.db.caps = w.db.caps) (fun v v' hstep hv => ?_) hsteps rfl
  cases hstep with
  | idle _ hdb => rw [hdb, hv]
  | exec st hst _ _ hdb =>
      rw [hdb, caps_apply (fun id m s t heq => hA id m s t (heq ▸ hst)), hv]

theorem nextPolicy_ok {current : Enterprise} {all : List Enterprise} {version : Int}
    {patch : PolicyPatch} {next : PolicyChange} (h : nextPolicy current all version patch = .ok next) :
    next.maxAccounts + ((all.filter fun row => row.id ≠ current.id).map (·.maxAccounts)).sum
      ≤ nameCapacity := by
  let others := ((all.filter fun row => row.id ≠ current.id).map (·.maxAccounts)).sum
  have hchecked : ∀ (m : Nat) (s : LifecycleState),
      (if s ≠ current.state ∧ !allowedTransition current.state s then
        .error (.pool 409 "invalid_state_transition" 0)
      else if nameCapacity < m + others then .error (.pool 409 "name_capacity_exceeded" 0)
      else .ok ⟨m, s⟩ : Except StoreError PolicyChange) = .ok next →
      next.maxAccounts + others ≤ nameCapacity := by
    intro m s h
    split at h
    · cases h
    split at h
    · cases h
    · rename_i hle
      obtain rfl := Except.ok.inj h
      exact Nat.le_of_not_lt hle
  unfold nextPolicy at h
  split at h
  · cases h
  split at h
  · cases h
  · exact hchecked _ _ h

/-- A policy edit is refused, or leaves a sum that it has checked. -/
theorem updateEnterprisePolicy_capSum (env : Env) (w : World) (hk : Keyed (·.id) w.db.enterprises)
    (id : String) (version : Int) (patch : PolicyPatch) :
    (step env w (.updateEnterprisePolicy id version patch)).db.capSum = w.db.capSum
    ∨ (step env w (.updateEnterprisePolicy id version patch)).db.capSum ≤ nameCapacity := by
  have hstate : step env w (.updateEnterprisePolicy id version patch)
      = (updateEnterprisePolicy env id version patch w).2 := by
    simp only [step, Op.exec, Tx.bind_run]
    rcases updateEnterprisePolicy env id version patch w with ⟨_ | _, _⟩ <;> rfl
  rw [hstate]
  rcases hrun : updateEnterprisePolicy env id version patch w with ⟨e | row, v⟩
  · obtain ⟨v', -, hroll⟩ := Tx.transaction_eq_error hrun
    exact .inl (by rw [hroll]; rfl)
  have hbody := Tx.transaction_eq_ok.mp hrun
  rw [Tx.bind_ok (select_run _ _)] at hbody
  rcases hfind : (schedulingEnterprises w.db).find? (fun row => row.id = id) with _ | current
  · simp [hfind] at hbody
  simp only [hfind] at hbody
  obtain ⟨next, w₁, hnext, hedit⟩ := Tx.bind_eq_ok.mp hbody
  obtain ⟨hok, hsame⟩ := ofExcept_ok hnext
  rw [hsame, Tx.bind_ok (now_run env _), Tx.bind_ok (exec_run _ _)] at hedit
  obtain ⟨_, w₂, hevent, hend⟩ := Tx.bind_eq_ok.mp hedit
  rw [Tx.bind_ok (select_run _ _)] at hend
  have hcid : current.id = id := by simpa using List.find?_some hfind
  have hmem : current ∈ w.db.enterprises :=
    mem_schedulingEnterprises.mp (List.mem_of_find?_eq_some hfind)
  have hsome : (w.db.enterprise id).isSome := find?_key_isSome.mpr ⟨current, hmem, hcid⟩
  -- the event leaves the caps alone, and the row found at the end is only returned
  have hcaps : v.db.caps = (w.db.mapEnterprise id fun e => { e with
      maxAccounts := next.maxAccounts, state := next.state
      policyVersion := e.policyVersion + 1, updatedAt := env.clock w.ticks }).caps := by
    obtain ⟨events, hev⟩ := recordEvent_run env { action := "enterprise_policy_updated",
                                                  enterpriseId := id, detail := next.json }
      { w with ticks := w.ticks + 1, db := (Stmt.setPolicy id next.maxAccounts next.state
        (env.clock w.ticks)).apply w.db }
    obtain rfl := (Prod.mk.inj (hev.symm.trans hevent)).2
    generalize hrow : ({ (Stmt.setPolicy id next.maxAccounts next.state (env.clock w.ticks)).apply w.db
      with events := events } : Db).enterprise id = found at hend
    cases found with
    | none => simp at hend
    | some row =>
        obtain rfl := (Prod.mk.inj hend).2
        rfl
  refine .inr ?_
  rw [capSum_caps, hcaps, ← capSum_caps]
  have hsum : (w.db.mapEnterprise id fun e => { e with
      maxAccounts := next.maxAccounts, state := next.state
      policyVersion := e.policyVersion + 1, updatedAt := env.clock w.ticks }).capSum
      = next.maxAccounts + w.db.capsWithout id := capSum_mapEnterprise (by intro; rfl) hk hsome
  have hle := nextPolicy_ok hok
  have hperm : ((schedulingEnterprises w.db).filter fun row => row.id ≠ current.id).Perm
      (w.db.enterprises.filter fun row => row.id ≠ current.id) :=
    (List.perm_insertionSort _ _).filter _
  rw [(hperm.map _).sum_eq, hcid] at hle
  rw [hsum]
  exact hle

theorem step_capSum (env : Env) (w : World) (hk : Keyed (·.id) w.db.enterprises)
    (h : w.db.capSum ≤ nameCapacity) (op : Op) : (step env w op).db.capSum ≤ nameCapacity := by
  by_cases hop : ∃ id version patch, op = .updateEnterprisePolicy id version patch
  · obtain ⟨id, version, patch, rfl⟩ := hop
    rcases updateEnterprisePolicy_capSum env w hk id version patch with heq | hle
    · rw [heq]
      exact h
    · exact hle
  · have hcaps := steps_caps (steps_of_step env w op)
      (fun id m s t ⟨version, patch, heq⟩ => hop ⟨id, version, patch, heq⟩)
    rw [capSum_caps, hcaps, ← capSum_caps]
    exact h

theorem step_keyed (env : Env) (w : World) (hk : Keyed (·.id) w.db.enterprises) (op : Op) :
    Keyed (·.id) (step env w op).db.enterprises := by
  have hkeep : ∀ v v', Step env op.permits v v' → Keyed (·.id) v.db.enterprises →
      Keyed (·.id) v'.db.enterprises := by
    intro v v' hstep hv
    cases hstep with
    | idle _ hdb => exact hdb ▸ hv
    | exec st _ _ _ hdb =>
        obtain ⟨f, hf, hmap⟩ := apply_enterprises v.db st
        rw [hdb, hmap]
        exact hv.map hf
  exact Steps.invariant hkeep (steps_of_step env w op) hk

/-! ## Seeding -/

/-- What the seeding of an enterprise does to the caps: nothing when the row is there, else a new
row whose cap has been checked. -/
def Seeded (pool : Bool) (seed : EnterpriseSeed) (db db' : Db) : Prop :=
  ((∃ c ∈ db.caps, c.1 = seed.id) ∧ db'.caps = db.caps)
  ∨ ((∀ c ∈ db.caps, c.1 ≠ seed.id) ∧ db'.caps = db.caps ++ [(seed.id, initialCap pool seed db)]
      ∧ initialCap pool seed db + db.capSum ≤ nameCapacity)

theorem ensureEnterprise_ok {pool : Bool} {seed : EnterpriseSeed}
    (hrun : ensureEnterprise env pool seed w = (.ok (), w')) : Seeded pool seed w.db w'.db := by
  rw [ensureEnterprise, Tx.bind_ok (select_run _ _)] at hrun
  cases hfound : (w.db.enterprise seed.id).isSome with
  | true =>
      rw [hfound] at hrun
      obtain rfl := (Prod.mk.inj hrun).2
      exact .inl ⟨enterprise_isSome_caps.mp hfound, rfl⟩
  | false =>
      rw [hfound] at hrun
      simp only [Bool.false_eq_true, if_false] at hrun
      rw [Tx.bind_ok (select_run _ _)] at hrun
      obtain ⟨_, w₁, hassert, hinsert⟩ := Tx.bind_eq_ok.mp hrun
      rw [assertNameCapacity, Tx.bind_ok (select_run _ _)] at hassert
      split at hassert
      · rename_i hle
        obtain rfl := (Prod.mk.inj hassert).2
        obtain rfl := (Prod.mk.inj hinsert).2
        refine .inr ⟨fun c hc hid => ?_, ?_, hle⟩
        · rw [enterprise_isSome_caps.mpr ⟨c, hc, hid⟩] at hfound
          cases hfound
        · exact List.map_append
      · simp at hassert

theorem verifyEnterpriseIdentity_ok {seed : EnterpriseSeed}
    (hrun : verifyEnterpriseIdentity env seed w = (.ok (), w')) : w'.db.caps = w.db.caps := by
  rw [verifyEnterpriseIdentity, Tx.bind_ok (select_run _ _)] at hrun
  cases hrow : w.db.enterprise seed.id with
  | none => simp [hrow] at hrun
  | some row =>
      simp only [hrow] at hrun
      split at hrun
      · obtain rfl := (Prod.mk.inj hrun).2
        rfl
      split at hrun
      · simp at hrun
      · obtain rfl := (Prod.mk.inj hrun).2
        exact caps_mapEnterprise fun e => ⟨rfl, rfl⟩

theorem seedEnterprise_ok {pool : Bool} {seed : EnterpriseSeed}
    (hrun : seedEnterprise env pool seed w = (.ok (), w')) : Seeded pool seed w.db w'.db := by
  obtain ⟨_, w₁, hensure, hverify⟩ := Tx.bind_eq_ok.mp hrun
  have hcaps := verifyEnterpriseIdentity_ok hverify
  rcases ensureEnterprise_ok hensure with ⟨hin, hsame⟩ | ⟨hnew, happ, hle⟩
  · exact .inl ⟨hin, hcaps.trans hsame⟩
  · exact .inr ⟨hnew, hcaps.trans happ, hle⟩

/-- ΣC_e over the enterprises other than `default` once these seeds are in the table. -/
def Db.planned (db : Db) (others : List EnterpriseSeed) : Nat :=
  db.capsWithout defaultEnterpriseId
    + ((others.filter fun s => (db.enterprise s.id).isNone).map (·.maxAccounts)).sum

/-- The seeds of one start: `default` and others, all distinct. -/
structure SeedList (seed : EnterpriseSeed) (others : List EnterpriseSeed) : Prop where
  default : seed.id = defaultEnterpriseId
  not_default : ∀ s ∈ others, s.id ≠ defaultEnterpriseId
  nodup : (others.map (·.id)).Nodup

theorem Seeded.capSum {pool : Bool} {seed : EnterpriseSeed} {db db' : Db}
    (h : Seeded pool seed db db') (hle : db.capSum ≤ nameCapacity) :
    db'.capSum ≤ nameCapacity := by
  rcases h with ⟨-, hsame⟩ | ⟨-, happ, hchecked⟩
  · rwa [capSum_caps, hsame, ← capSum_caps]
  · rw [capSum_caps] at hchecked ⊢
    rw [happ, List.map_append, List.sum_append]
    simpa [Nat.add_comm] using hchecked

theorem Seeded.keyed {pool : Bool} {seed : EnterpriseSeed} {db db' : Db}
    (h : Seeded pool seed db db') (hk : Keyed (·.id) db.enterprises) :
    Keyed (·.id) db'.enterprises := by
  rw [keyed_caps] at hk ⊢
  rcases h with ⟨-, hsame⟩ | ⟨hnew, happ, -⟩
  · rwa [hsame]
  · rw [happ]
    exact hk.append hnew

theorem Seeded.present {pool : Bool} {seed : EnterpriseSeed} {db db' : Db}
    (h : Seeded pool seed db db') {id : String}
    (hid : id = seed.id ∨ (db.enterprise id).isSome) : (db'.enterprise id).isSome := by
  rw [enterprise_isSome_caps] at *
  rcases h with ⟨hin, hsame⟩ | ⟨-, happ, -⟩
  · rw [hsame]
    rcases hid with rfl | hid
    · exact hin
    · exact hid
  · rw [happ]
    rcases hid with rfl | ⟨c, hc, hid⟩
    · exact ⟨_, List.mem_append_right _ (List.mem_singleton_self _), rfl⟩
    · exact ⟨c, List.mem_append_left _ hc, hid⟩

/-- The missing seeds once one of them has been seeded. -/
theorem sum_missing {others : List EnterpriseSeed} {s : EnterpriseSeed} {known known' : String → Bool}
    (hs : s ∈ others) (hnd : (others.map (·.id)).Nodup) (hunknown : known s.id = false)
    (hknown : ∀ id, known' id = (known id || id = s.id)) :
    ((others.filter fun x => !known x.id).map (·.maxAccounts)).sum
      = s.maxAccounts + ((others.filter fun x => !known' x.id).map (·.maxAccounts)).sum := by
  induction others with
  | nil => exact absurd hs List.not_mem_nil
  | cons x others ih =>
      obtain ⟨hfresh, hrest⟩ := List.nodup_cons.mp hnd
      rcases List.mem_cons.mp hs with rfl | hs
      · have hsame : others.filter (fun x => !known' x.id) = others.filter fun x => !known x.id := by
          refine List.filter_congr fun y hy => ?_
          have hne : y.id ≠ s.id := fun h => hfresh (List.mem_map.mpr ⟨y, hy, h⟩)
          simp [hknown, hne]
        rw [List.filter_cons_of_pos (by simp [hunknown]),
          List.filter_cons_of_neg (by simp [hknown]), hsame, List.map_cons, List.sum_cons]
      · have htail := ih hs hrest
        have hne : x.id ≠ s.id := fun h => hfresh (List.mem_map.mpr ⟨s, hs, h.symm⟩)
        cases hx : known x.id with
        | true =>
            rw [List.filter_cons_of_neg (by simp [hx]), List.filter_cons_of_neg
              (by simp [hknown, hx])]
            exact htail
        | false =>
            rw [List.filter_cons_of_pos (by simp [hx]), List.filter_cons_of_pos
              (by simp [hknown, hx, hne])]
            simp only [List.map_cons, List.sum_cons, htail]
            omega

/-- Seeding moves a cap from the registry to the table; the planned sum stays. -/
theorem Seeded.planned {pool : Bool} {seed s : EnterpriseSeed} {others : List EnterpriseSeed}
    {db db' : Db} (h : Seeded pool s db db') (hl : SeedList seed others)
    (hs : s ∈ seed :: others) : db'.planned others = db.planned others := by
  have hknown : ∀ (db : Db) (l : List EnterpriseSeed),
      (l.filter fun s => (db.enterprise s.id).isNone)
        = l.filter fun s => !(db.caps.any fun c => c.1 = s.id) := by
    intro db l
    refine List.filter_congr fun x _ => ?_
    cases hx : (db.enterprise x.id).isSome with
    | true =>
        have hin := enterprise_isSome_caps.mp hx
        have hany : (db.caps.any fun c => c.1 = x.id) = true := by simpa using hin
        rw [hany]
        simpa using hx
    | false =>
        have hout : (db.caps.any fun c => c.1 = x.id) = false := by
          refine Bool.eq_false_iff.mpr fun hany => ?_
          rw [enterprise_isSome_caps.mpr (by simpa using hany)] at hx
          cases hx
        rw [hout]
        simpa using hx
  rw [Db.planned, Db.planned, hknown, hknown, capsWithout_caps, capsWithout_caps]
  rcases h with ⟨-, hsame⟩ | ⟨hnew, happ, -⟩
  · rw [hsame]
  · have hany : ∀ id, (db'.caps.any fun c => c.1 = id)
        = ((db.caps.any fun c => c.1 = id) || id = s.id) := by
      intro id
      rw [happ, List.any_append]
      simp [eq_comm]
    have hunknown : (db.caps.any fun c => c.1 = s.id) = false := by
      simpa using hnew
    rcases List.mem_cons.mp hs with rfl | hs
    · -- `default` counts in neither part
      have hothers : others.filter (fun x => !(db'.caps.any fun c => c.1 = x.id))
          = others.filter fun x => !(db.caps.any fun c => c.1 = x.id) := by
        refine List.filter_congr fun x hx => ?_
        have hne : x.id ≠ s.id := hl.default ▸ hl.not_default x hx
        rw [hany]
        simp [hne]
      rw [hothers, happ, List.filter_append, List.filter_cons_of_neg (by simp [hl.default])]
      simp
    · have hcap : initialCap pool s db = s.maxAccounts := by
        simp [initialCap, hl.not_default s hs]
      have hmissing := sum_missing hs hl.nodup hunknown hany
      rw [hmissing, happ, List.filter_append, List.filter_cons_of_pos (by simp [hl.not_default s hs]),
        List.map_append, List.sum_append, hcap]
      simp
      omega

/-! ## Registry -/

theorem resolveRegistry_ok {entries registry : List RegistryEntry}
    (h : resolveRegistry entries = .ok registry) : (registry.map (·.id)).Nodup := by
  unfold resolveRegistry at h
  split at h
  · cases h
  split at h
  · cases h
  · rename_i hnodup
    split at h
    · cases h
    · obtain rfl := Except.ok.inj h
      exact not_not.mp hnodup

theorem loadRegistry_ok {cfg : StartConfig} {registry : List RegistryEntry}
    (h : loadRegistry cfg = .ok registry) : (registry.map (·.id)).Nodup := by
  obtain ⟨fileEntries, -, h⟩ := except_bind_eq_ok.mp h
  obtain ⟨envCap, -, h⟩ := except_bind_eq_ok.mp h
  obtain ⟨cap, -, h⟩ := except_bind_eq_ok.mp h
  split at h
  · exact resolveRegistry_ok h
  · exact resolveRegistry_ok h

theorem enterpriseSeeds_ok {cfg : StartConfig} {seed : EnterpriseSeed} {others : List EnterpriseSeed}
    (h : enterpriseSeeds cfg = .ok (seed, others)) : SeedList seed others := by
  obtain ⟨registry, hload, h⟩ := except_bind_eq_ok.mp h
  have hnodup := loadRegistry_ok hload
  simp only at h
  split at h
  · cases h
  · rename_i found hfind
    obtain ⟨rfl, rfl⟩ := Prod.mk.inj (Except.ok.inj h)
    refine ⟨by simpa using List.find?_some hfind, fun s hs => ?_, ?_⟩
    · simpa using List.of_mem_filter hs
    · have hids : (registry.map enterpriseSeed).map (·.id) = registry.map (·.id) := by
        rw [List.map_map]
        rfl
      exact (hids ▸ hnodup).sublist (List.filter_sublist.map _)

theorem readConfig_ok {cfg : StartConfig} {seed : EnterpriseSeed} {others : List EnterpriseSeed}
    {maxAccounts : Option Nat} (h : readConfig cfg = .ok (seed, others, maxAccounts)) :
    SeedList seed others := by
  obtain ⟨n, -, h⟩ := except_bind_eq_ok.mp h
  obtain ⟨⟨s, l⟩, hseeds, h⟩ := except_bind_eq_ok.mp h
  obtain ⟨rfl, hrest⟩ := Prod.mk.inj (Except.ok.inj h)
  obtain ⟨rfl, -⟩ := Prod.mk.inj hrest
  exact enterpriseSeeds_ok hseeds

/-! ## Phases -/

/-- What a seeding transaction of a start does. -/
structure SeedStep (others : List EnterpriseSeed) (db db' : Db) : Prop where
  sum : db.capSum ≤ nameCapacity → db'.capSum ≤ nameCapacity
  keyed : Keyed (·.id) db.enterprises → Keyed (·.id) db'.enterprises
  planned : db'.planned others = db.planned others

theorem Seeded.step {pool : Bool} {seed s : EnterpriseSeed} {others : List EnterpriseSeed}
    {db db' : Db} (h : Seeded pool s db db') (hl : SeedList seed others) (hs : s ∈ seed :: others) :
    SeedStep others db db' :=
  ⟨h.capSum, h.keyed, h.planned hl hs⟩

/-- The sync seeds one enterprise after the other. -/
theorem syncRegistryEnterprises_ok {pool : Bool} {seed : EnterpriseSeed}
    {others : List EnterpriseSeed} (hl : SeedList seed others)
    (hrun : syncRegistryEnterprises env pool (seed :: others) w = (.ok (), w')) :
    SeedStep others w.db w'.db ∧ ∀ s ∈ seed :: others, (w'.db.enterprise s.id).isSome := by
  obtain ⟨_, w₁, hseeds, hrest⟩ := Tx.bind_eq_ok.mp hrun
  rw [Tx.bind_ok (select_run _ _)] at hrest
  have hsame : w' = w₁ := by
    split at hrest
    · simp at hrest
    · exact (Prod.mk.inj hrest).2.symm
  subst hsame
  -- what is left of the seeds is still in the list, the others are in the table
  let I : List EnterpriseSeed → World → Prop := fun l v =>
    (∀ s ∈ l, s ∈ seed :: others) ∧ SeedStep others w.db v.db
      ∧ ∀ s ∈ seed :: others, s ∈ l ∨ (v.db.enterprise s.id).isSome
  have hstep : ∀ s l v v', I (s :: l) v → seedEnterprise env pool s v = (.ok (), v') → I l v' := by
    intro s l v v' ⟨hin, hdone, hpresent⟩ hseed
    have hseeded := seedEnterprise_ok hseed
    have hone := hseeded.step hl (hin s List.mem_cons_self)
    refine ⟨fun x hx => hin x (List.mem_cons_of_mem _ hx), ?_, ?_⟩
    · exact ⟨fun h => hone.sum (hdone.sum h), fun h => hone.keyed (hdone.keyed h),
        hone.planned.trans hdone.planned⟩
    · intro x hx
      rcases hpresent x hx with hx | hx
      · rcases List.mem_cons.mp hx with rfl | hx
        · exact .inr (hseeded.present (.inl rfl))
        · exact .inl hx
      · exact .inr (hseeded.present (.inr hx))
  have hstart : I (seed :: others) w :=
    ⟨fun _ h => h, ⟨id, id, rfl⟩, fun _ h => .inl h⟩
  obtain ⟨-, hdone, hpresent⟩ := Tx.forM_eq_ok I hstep hstart hseeds
  refine ⟨hdone, fun s hs => ?_⟩
  rcases hpresent s hs with h | h
  · exact absurd h List.not_mem_nil
  · exact h

/-- A pool that is new gives `default` the configured cap, whatever the other rows hold. -/
theorem initializeEnterprise_ok {created : Bool} {n : Nat} (hk : Keyed (·.id) w.db.enterprises)
    (hrun : initializeEnterprise env created n w = (.ok (), w')) :
    Keyed (·.id) w'.db.enterprises
    ∧ (created = false → w'.db.capSum = w.db.capSum)
    ∧ (created = true → w'.db.capSum = n + w.db.capsWithout defaultEnterpriseId) := by
  rw [initializeEnterprise, Tx.bind_ok (select_run _ _)] at hrun
  cases hfound : (w.db.enterprise defaultEnterpriseId).isSome with
  | false => simp [hfound] at hrun
  | true =>
      rw [hfound] at hrun
      simp only [Bool.not_true, Bool.false_eq_true, if_false] at hrun
      -- the correction of the counts leaves the caps alone
      have hcorrect : ∀ v, (correctInventoryDrift env >>= fun _ => pure ()) v = (.ok (), w') →
          w'.db.caps = v.db.caps := by
        intro v hrest
        obtain ⟨k, v', hloop, hend⟩ := Tx.bind_eq_ok.mp hrest
        obtain rfl := (Prod.mk.inj hend).2
        have hstate : step env v .correctInventoryDrift = v' :=
          (bind_pure_state _ _ _).trans (congrArg Prod.snd hloop)
        rw [← hstate]
        exact steps_caps (steps_of_step env v .correctInventoryDrift)
          (fun id m s t ⟨_, _, heq⟩ => by cases heq)
      cases created with
      | false =>
          have hcaps := hcorrect w hrun
          refine ⟨?_, fun _ => ?_, nofun⟩
          · rw [keyed_caps, hcaps, ← keyed_caps]
            exact hk
          · rw [capSum_caps, hcaps, ← capSum_caps]
      | true =>
          obtain ⟨_, w₁, hcap, hrest⟩ := Tx.bind_eq_ok.mp hrun
          have hcaps := hcorrect w₁ hrest
          rw [setEnterpriseCap, Tx.bind_ok (now_run env w), Tx.bind_ok (select_run _ _)] at hcap
          obtain ⟨_, w₂, hset, hend⟩ := Tx.bind_eq_ok.mp hcap
          rw [if_pos hfound] at hend
          obtain rfl := (Prod.mk.inj hend).2
          obtain rfl := (Prod.mk.inj hset).2
          refine ⟨?_, nofun, fun _ => ?_⟩
          · rw [keyed_caps, hcaps, ← keyed_caps]
            exact hk.map fun e => by split <;> rfl
          · rw [capSum_caps, hcaps, ← capSum_caps]
            exact capSum_mapEnterprise (by intro; rfl) hk hfound

/-- What holds between the phases of a start that is going to give `default` the cap `target`. -/
structure Boot.Bounded (others : List EnterpriseSeed) (target : Option Nat) (b : Boot) : Prop where
  keyed : Keyed (·.id) b.site.world.db.enterprises
  sum : b.site.world.db.capSum ≤ nameCapacity
  room : ∀ n, target = some n → b.site.pool = false ∨ b.created = true →
    n + b.site.world.db.planned others ≤ nameCapacity

theorem Boot.tx_ok {b b' : Boot} {body : StoreM Unit} (h : b.tx body = .ok b') :
    ∃ v, body b.site.world = (.ok (), v) ∧ b' = { b with site := { b.site with world := v } } := by
  unfold Boot.tx at h
  split at h
  · rename_i v hrun
    exact ⟨v, Tx.transaction_eq_ok.mp hrun, (Except.ok.inj h).symm⟩
  · cases h

theorem Boot.Bounded.seed {others : List EnterpriseSeed} {target : Option Nat} {b : Boot}
    (h : b.Bounded others target) {v : World} (hs : SeedStep others b.site.world.db v.db) :
    Boot.Bounded others target { b with site := { b.site with world := v } } := by
  refine ⟨hs.keyed h.keyed, hs.sum h.sum, fun n hn hpool => ?_⟩
  rw [hs.planned]
  exact h.room n hn hpool

theorem createTables_ok {n : Nat} {b b' : Boot} (h : createTables env n b = .ok b') :
    b'.site.world.db.enterprises = b.site.world.db.enterprises ∧ b'.site.pool = true
    ∧ b'.created = !b.site.pool := by
  unfold createTables at h
  split at h
  · rename_i hpool
    obtain rfl := Except.ok.inj h
    exact ⟨rfl, hpool, by simp [hpool]⟩
  · rename_i hpool
    obtain rfl := Except.ok.inj h
    exact ⟨rfl, rfl, by simpa using hpool⟩

theorem planned_congr {db db' : Db} (h : db'.enterprises = db.enterprises)
    (others : List EnterpriseSeed) : db'.planned others = db.planned others := by
  rw [Db.planned, Db.planned, Db.capsWithout, Db.capsWithout, h]
  simp only [Db.enterprise, h]

/-- The phases before `initializeEnterprise` seed and create tables. -/
theorem bounded_seeding {seed : EnterpriseSeed} {others : List EnterpriseSeed}
    {maxAccounts target : Option Nat} (hl : SeedList seed others) {b b' : Boot}
    {p : Boot → Except StoreError Boot}
    (hp : p ∈ (phases env seed others maxAccounts).take 4) (hb : b.Bounded others target)
    (hrun : p b = .ok b') : b'.Bounded others target := by
  have hphase : p = (fun b => b.tx (ensureEnterprise env b.site.pool seed))
      ∨ p = (fun b => b.tx (seedEnterprise env b.site.pool seed))
      ∨ p = (fun b => b.tx (syncRegistryEnterprises env b.site.pool (seed :: others)))
      ∨ ∃ n, p = createTables env n := by
    cases maxAccounts with
    | none => simpa [phases] using Or.imp_right (Or.imp_right Or.inl) (by simpa [phases] using hp)
    | some n =>
        have hcases := by simpa [phases] using hp
        exact Or.imp_right (Or.imp_right (Or.imp_right fun h => ⟨n, h⟩)) hcases
  rcases hphase with rfl | rfl | rfl | ⟨n, rfl⟩
  · obtain ⟨v, hbody, rfl⟩ := Boot.tx_ok hrun
    exact hb.seed ((ensureEnterprise_ok hbody).step hl List.mem_cons_self)
  · obtain ⟨v, hbody, rfl⟩ := Boot.tx_ok hrun
    exact hb.seed ((seedEnterprise_ok hbody).step hl List.mem_cons_self)
  · obtain ⟨v, hbody, rfl⟩ := Boot.tx_ok hrun
    exact hb.seed (syncRegistryEnterprises_ok hl hbody).1
  · obtain ⟨hrows, hpool, hcreated⟩ := createTables_ok hrun
    refine ⟨hrows ▸ hb.keyed, ?_, fun m hm hnew => ?_⟩
    · rw [Db.capSum, hrows]
      exact hb.sum
    · -- created now, so the pool was absent before
      rw [planned_congr hrows]
      refine hb.room m hm (.inl ?_)
      simpa [hpool, hcreated] using hnew

theorem runPhases_invariant {I : Boot → Prop} {ps : List (Boot → Except StoreError Boot)}
    (hstep : ∀ p ∈ ps, ∀ b b', I b → p b = .ok b' → I b') :
    ∀ {b : Boot}, I b → I (runPhases ps b) := by
  induction ps with
  | nil => exact fun h => h
  | cons p ps ih =>
      intro b hb
      rw [runPhases]
      split
      · rename_i b' hrun
        exact ih (fun q hq => hstep q (List.mem_cons_of_mem _ hq))
          (hstep p List.mem_cons_self b b' hb hrun)
      · exact hb

/-- The last phase starts where the others end, unless one of them throws. -/
theorem runPhases_concat {I J : Boot → Prop} {ps : List (Boot → Except StoreError Boot)}
    {last : Boot → Except StoreError Boot} (hstep : ∀ p ∈ ps, ∀ b b', I b → p b = .ok b' → I b')
    (hlast : ∀ b b', I b → last b = .ok b' → J b') (hweak : ∀ b, I b → J b) :
    ∀ {b : Boot}, I b → J (runPhases (ps ++ [last]) b) := by
  induction ps with
  | nil =>
      intro b hb
      rw [List.nil_append, runPhases]
      split
      · rename_i b' hrun
        exact hlast b b' hb hrun
      · exact hweak b hb
  | cons p ps ih =>
      intro b hb
      rw [List.cons_append, runPhases]
      split
      · rename_i b' hrun
        exact ih (fun q hq => hstep q (List.mem_cons_of_mem _ hq))
          (hstep p List.mem_cons_self b b' hb hrun)
      · exact hweak b hb

theorem bounded_initialize {others : List EnterpriseSeed} {n : Nat} {b b' : Boot}
    (hb : b.Bounded others (some n))
    (hrun : b.tx (initializeEnterprise env b.created n) = .ok b') :
    Keyed (·.id) b'.site.world.db.enterprises ∧ b'.site.world.db.capSum ≤ nameCapacity := by
  obtain ⟨v, hbody, rfl⟩ := Boot.tx_ok hrun
  obtain ⟨hk, hold, hnew⟩ := initializeEnterprise_ok hb.keyed hbody
  refine ⟨hk, ?_⟩
  show v.db.capSum ≤ nameCapacity
  cases hcreated : b.created with
  | false =>
      have hsum : v.db.capSum = b.site.world.db.capSum := hold hcreated
      have hle := hb.sum
      omega
  | true =>
      have hsum : v.db.capSum = n + b.site.world.db.capsWithout defaultEnterpriseId := hnew hcreated
      have hroom := hb.room n rfl (.inr hcreated)
      rw [Db.planned] at hroom
      omega

/-! ## Starts -/

/-- The start gets as far as `initializeEnterprise`: none of the phases before it throws. -/
def Initializes (env : Env) (site : Site) (seed : EnterpriseSeed) (others : List EnterpriseSeed) (n : Nat)
    (crash : Nat) : Prop :=
  4 < crash ∧ ∃ b, ((phases env seed others (some n)).take 4).foldlM (fun b p => p b) ⟨site, false⟩ = .ok b

/-- A start that gets to create the pool does not give `default` more than the other enterprises leave. -/
def StartFits (env : Env) (site : Site) (cfg : StartConfig) (crash : Nat) : Prop :=
  ∀ seed others n, readConfig cfg = .ok (seed, others, some n) → site.pool = false →
    Initializes env site seed others n crash → n + site.world.db.planned others ≤ nameCapacity

/-- Behind a phase that throws nothing is run. -/
theorem runPhases_of_error {ps qs : List (Boot → Except StoreError Boot)} {e : StoreError} :
    ∀ {b : Boot}, ps.foldlM (fun b p => p b) b = .error e → runPhases (ps ++ qs) b = runPhases ps b := by
  induction ps with
  | nil => exact fun h => nomatch h
  | cons p ps ih =>
      intro b h
      rw [List.foldlM_cons] at h
      rw [List.cons_append, runPhases, runPhases]
      cases hp : p b with
      | error e' => rfl
      | ok b' =>
          rw [hp] at h
          exact ih h

/-- The phases before `initializeEnterprise` keep the bound, wherever they end. -/
theorem seeding_bounded {site : Site} {seed : EnterpriseSeed} {others : List EnterpriseSeed}
    {maxAccounts : Option Nat} (hl : SeedList seed others) (hk : Keyed (·.id) site.world.db.enterprises)
    (h : site.world.db.capSum ≤ nameCapacity) {ps : List (Boot → Except StoreError Boot)}
    (hps : ∀ p ∈ ps, p ∈ (phases env seed others maxAccounts).take 4) :
    Keyed (·.id) (runPhases ps ⟨site, false⟩).site.world.db.enterprises
    ∧ (runPhases ps ⟨site, false⟩).site.world.db.capSum ≤ nameCapacity := by
  have hb : Boot.Bounded others none ⟨site, false⟩ := ⟨hk, h, fun _ hn => nomatch hn⟩
  have hstep : ∀ p ∈ ps, ∀ b b', b.Bounded others none → p b = .ok b' → b'.Bounded others none :=
    fun p hp b b' hb hrun => bounded_seeding hl (hps p hp) hb hrun
  have hend := runPhases_invariant hstep hb
  exact ⟨hend.keyed, hend.sum⟩

theorem phases_split (seed : EnterpriseSeed) (others : List EnterpriseSeed) (n : Nat) {crash : Nat}
    (hcrash : 4 < crash) : (phases env seed others (some n)).take crash
      = (phases env seed others (some n)).take 4
        ++ [fun b => b.tx (initializeEnterprise env b.created n)] := by
  rw [List.take_of_length_le (by simp [phases]; omega)]
  rfl

theorem start_bounded (env : Env) {site : Site} {cfg : StartConfig} {crash : Nat}
    (hk : Keyed (·.id) site.world.db.enterprises) (h : site.world.db.capSum ≤ nameCapacity)
    (hfits : StartFits env site cfg crash) :
    Keyed (·.id) (start env site cfg crash).world.db.enterprises
    ∧ (start env site cfg crash).world.db.capSum ≤ nameCapacity := by
  unfold start
  split
  · exact ⟨hk, h⟩
  rename_i seed others maxAccounts hconfig
  have hl := readConfig_ok hconfig
  by_cases hcrash : crash ≤ 4
  · -- the start ends before `initializeEnterprise`
    exact seeding_bounded hl hk h fun p hp => List.take_subset_take_left _ hcrash hp
  have hcrash' : 4 < crash := Nat.lt_of_not_le hcrash
  cases maxAccounts with
  | none =>
      have hps : ∀ p ∈ (phases env seed others none).take crash, p ∈ (phases env seed others none).take 4 := by
        intro p hp
        rw [List.take_of_length_le (by simp [phases])]
        exact List.mem_of_mem_take hp
      exact seeding_bounded hl hk h hps
  | some n =>
      rw [phases_split seed others n hcrash']
      cases hseeding : ((phases env seed others (some n)).take 4).foldlM (fun b p => p b) ⟨site, false⟩ with
      | error e =>
          rw [runPhases_of_error hseeding]
          exact seeding_bounded hl hk h fun p hp => hp
      | ok seeded =>
          have hb : Boot.Bounded others (some n) ⟨site, false⟩ := by
            refine ⟨hk, h, fun m hm hpool => ?_⟩
            obtain rfl := Option.some.inj hm
            have hnew : site.pool = false := by simpa using hpool
            exact hfits seed others n hconfig hnew ⟨hcrash', seeded, hseeding⟩
          exact runPhases_concat
            (J := fun b => Keyed (·.id) b.site.world.db.enterprises
              ∧ b.site.world.db.capSum ≤ nameCapacity)
            (fun p hp b b' hb hrun => bounded_seeding hl hp hb hrun)
            (fun b b' hb hrun => bounded_initialize hb hrun) (fun b hb => ⟨hb.keyed, hb.sum⟩) hb

theorem siteStep_bounded (env : Env) {site : Site} {s : SiteStep}
    (hk : Keyed (·.id) site.world.db.enterprises) (h : site.world.db.capSum ≤ nameCapacity)
    (hfits : ∀ cfg crash, s = .start cfg crash → StartFits env site cfg crash) :
    Keyed (·.id) (siteStep env site s).world.db.enterprises
    ∧ (siteStep env site s).world.db.capSum ≤ nameCapacity := by
  cases s with
  | start cfg crash => exact start_bounded env hk h (hfits cfg crash rfl)
  | op op =>
      rw [siteStep]
      split
      · exact ⟨step_keyed env site.world hk op, step_capSum env site.world hk h op⟩
      · exact ⟨hk, h⟩

/-- Every start of the run that creates the pool fits. -/
def FitsRun (env : Env) : Site → List SiteStep → Prop
  | _, [] => True
  | site, s :: steps =>
      (∀ cfg crash, s = .start cfg crash → StartFits env site cfg crash)
        ∧ FitsRun env (siteStep env site s) steps

theorem siteRun_bounded (env : Env) {steps : List SiteStep} :
    ∀ {site : Site}, Keyed (·.id) site.world.db.enterprises → site.world.db.capSum ≤ nameCapacity →
      FitsRun env site steps →
      Keyed (·.id) (siteRun env site steps).world.db.enterprises
      ∧ (siteRun env site steps).world.db.capSum ≤ nameCapacity := by
  induction steps with
  | nil => exact fun hk h _ => ⟨hk, h⟩
  | cons s steps ih =>
      intro site hk h hfits
      obtain ⟨hk', h'⟩ := siteStep_bounded env hk h hfits.1
      exact ih hk' h' hfits.2

theorem FitsRun.take {env : Env} {steps : List SiteStep} :
    ∀ {site : Site}, FitsRun env site steps → ∀ k, FitsRun env site (steps.take k) := by
  induction steps with
  | nil => exact fun _ k => by simp [FitsRun]
  | cons s steps ih =>
      intro site h k
      cases k with
      | zero => trivial
      | succ k => exact ⟨h.1, ih h.2 k⟩

theorem runPhases_of_ok {ps qs : List (Boot → Except StoreError Boot)} {b' : Boot} :
    ∀ {b : Boot}, ps.foldlM (fun b p => p b) b = .ok b' → runPhases (ps ++ qs) b = runPhases qs b' := by
  induction ps with
  | nil => exact fun h => by rw [Except.ok.inj h, List.nil_append]
  | cons p ps ih =>
      intro b h
      rw [List.foldlM_cons] at h
      obtain ⟨b₁, hp, hrest⟩ := except_bind_eq_ok.mp h
      rw [List.cons_append, runPhases, hp]
      exact ih hrest

/-- `initializeEnterprise` does not throw once `default` is in the table. -/
theorem initializeEnterprise_total (created : Bool) (n : Nat)
    (hfound : (w.db.enterprise defaultEnterpriseId).isSome) :
    ∃ v, initializeEnterprise env created n w = (.ok (), v) := by
  have hcorrect : ∀ v, ∃ v', (correctInventoryDrift env >>= fun _ => pure ()) v = (.ok (), v') := by
    intro v
    obtain ⟨-, v', -, -, hrun⟩ := correctInventoryDrift_run env v
    exact ⟨v', by rw [Tx.bind_ok hrun]; rfl⟩
  rw [initializeEnterprise, Tx.bind_ok (select_run _ _), hfound]
  simp only [Bool.not_true, Bool.false_eq_true, if_false]
  cases created with
  | false => exact hcorrect w
  | true =>
      have hset : ∃ v, setEnterpriseCap env defaultEnterpriseId n w = (.ok (), v) := by
        rw [setEnterpriseCap, Tx.bind_ok (now_run env w), Tx.bind_ok (select_run _ _)]
        exact ⟨_, (Tx.bind_ok (Tx.write_run _ _)).trans (by rw [if_pos hfound]; rfl)⟩
      obtain ⟨v, hset⟩ := hset
      obtain ⟨v', hrest⟩ := hcorrect v
      exact ⟨v', (Tx.bind_ok hset).trans hrest⟩

/-- What a start leaves that gets to create the pool: the configured cap and the other rows. -/
theorem created_capSum {site : Site} {seed : EnterpriseSeed} {others : List EnterpriseSeed} {n : Nat}
    {b₄ : Boot} (hk : Keyed (·.id) site.world.db.enterprises) (hl : SeedList seed others)
    (hpool : site.pool = false)
    (hrun : ((phases env seed others (some n)).take 4).foldlM (fun b p => p b) ⟨site, false⟩ = .ok b₄) :
    (runPhases [fun b => b.tx (initializeEnterprise env b.created n)] b₄).site.world.db.capSum
      = n + site.world.db.planned others := by
  obtain ⟨b₁, h₁, hrun⟩ := except_bind_eq_ok.mp hrun
  obtain ⟨b₂, h₂, hrun⟩ := except_bind_eq_ok.mp hrun
  obtain ⟨b₃, h₃, hrun⟩ := except_bind_eq_ok.mp hrun
  obtain ⟨b₄', h₄, hrun⟩ := except_bind_eq_ok.mp hrun
  obtain rfl := Except.ok.inj hrun
  obtain ⟨v₁, hensure, rfl⟩ := Boot.tx_ok h₁
  obtain ⟨v₂, hseed, rfl⟩ := Boot.tx_ok h₂
  obtain ⟨v₃, hsync, rfl⟩ := Boot.tx_ok h₃
  obtain ⟨hrows, -, hcreated⟩ := createTables_ok h₄
  have s₁ := (ensureEnterprise_ok hensure).step hl List.mem_cons_self
  have s₂ := (seedEnterprise_ok hseed).step hl List.mem_cons_self
  obtain ⟨s₃, hpresent⟩ := syncRegistryEnterprises_ok hl hsync
  have hk₄ : Keyed (·.id) b₄'.site.world.db.enterprises := by
    rw [hrows]
    exact s₃.keyed (s₂.keyed (s₁.keyed hk))
  have hnew : b₄'.created = true := by simpa [hpool] using hcreated
  have hrow : ∀ id, b₄'.site.world.db.enterprise id = v₃.db.enterprise id := by
    intro id
    rw [Db.enterprise, Db.enterprise, hrows]
  have hdefault : (b₄'.site.world.db.enterprise defaultEnterpriseId).isSome := by
    rw [hrow, ← hl.default]
    exact hpresent seed List.mem_cons_self
  obtain ⟨v₅, hinit⟩ := initializeEnterprise_total b₄'.created n hdefault
  have hsum : v₅.db.capSum = n + b₄'.site.world.db.capsWithout defaultEnterpriseId :=
    (initializeEnterprise_ok hk₄ hinit).2.2 hnew
  have hplanned : b₄'.site.world.db.planned others = site.world.db.planned others := by
    rw [planned_congr hrows]
    exact s₃.planned.trans (s₂.planned.trans s₁.planned)
  -- every seed is in the table by now, so only the rows count
  have hmissing : others.filter (fun s => (b₄'.site.world.db.enterprise s.id).isNone) = [] := by
    refine List.filter_eq_nil_iff.mpr fun s hs => ?_
    have hin := hpresent s (List.mem_cons_of_mem _ hs)
    rw [hrow]
    cases hfound : v₃.db.enterprise s.id with
    | none => simp [hfound] at hin
    | some row => simp
  have hrest : b₄'.site.world.db.planned others
      = b₄'.site.world.db.capsWithout defaultEnterpriseId := by
    rw [Db.planned, hmissing]
    rfl
  have htx : b₄'.tx (initializeEnterprise env b₄'.created n)
      = .ok { b₄' with site := { b₄'.site with world := v₅ } } := by
    rw [Boot.tx, transaction, Tx.transaction_eq_ok.mpr hinit]
  rw [runPhases, htx]
  show v₅.db.capSum = _
  omega

/-- A start that keeps the bound fits. -/
theorem StartFits.of_bounded {site : Site} {cfg : StartConfig} {crash : Nat}
    (hk : Keyed (·.id) site.world.db.enterprises)
    (h : (start env site cfg crash).world.db.capSum ≤ nameCapacity) : StartFits env site cfg crash := by
  intro seed others n hconfig hpool ⟨hcrash, b, hrun⟩
  rw [start, hconfig] at h
  dsimp only at h
  rw [phases_split seed others n hcrash, runPhases_of_ok hrun,
    created_capSum hk (readConfig_ok hconfig) hpool hrun] at h
  exact h

theorem siteStep_fits {site : Site} {s : SiteStep} (hk : Keyed (·.id) site.world.db.enterprises)
    (h : (siteStep env site s).world.db.capSum ≤ nameCapacity) :
    ∀ cfg crash, s = .start cfg crash → StartFits env site cfg crash := by
  rintro cfg crash rfl
  exact StartFits.of_bounded hk h

theorem fitsRun_of_bounded (env : Env) {steps : List SiteStep} :
    ∀ {site : Site}, Keyed (·.id) site.world.db.enterprises → site.world.db.capSum ≤ nameCapacity →
      (∀ k, (siteRun env site (steps.take k)).world.db.capSum ≤ nameCapacity) → FitsRun env site steps := by
  induction steps with
  | nil => exact fun _ _ _ => trivial
  | cons s steps ih =>
      intro site hk h hall
      have hfits := siteStep_fits hk (hall 1)
      obtain ⟨hk', h'⟩ := siteStep_bounded env hk h hfits
      exact ⟨hfits, ih hk' h' fun k => hall (k + 1)⟩

/-- ΣC_e stays within the name catalog all through a run exactly when each of its starts that gets to create
the pool fits. -/
theorem name_capacity (env : Env) (site : Site) (hk : Keyed (·.id) site.world.db.enterprises)
    (h : site.world.db.capSum ≤ nameCapacity) (steps : List SiteStep) :
    (∀ k, (siteRun env site (steps.take k)).world.db.capSum ≤ nameCapacity) ↔ FitsRun env site steps :=
  ⟨fitsRun_of_bounded env hk h, fun hfits k => (siteRun_bounded env hk h (hfits.take k)).2⟩

namespace Sample

/-- The registry of `default` and one more enterprise, with 1000 names left for `default`. -/
def roomyRegistry : StartConfig where
  registry := some [⟨"default", some 1, "d"⟩, ⟨"beta", some 9000, "b"⟩]
  defaultFingerprint := "d"
  poolMode := true
  poolMaxAccounts := none

/-- A registry that fills the name catalog, and no `POOL_MAX_ACCOUNTS`. -/
def fullRegistry : StartConfig where
  registry := some [⟨"default", some 1, "d"⟩, ⟨"beta", some 9999, "b"⟩]
  defaultFingerprint := "d"
  poolMode := true
  poolMaxAccounts := none

def freshSite : Site := ⟨{ world with db := { world.db with
  enterprises := [], members := [], leases := [], holds := [], catalogHolds := [] } }, false⟩

end Sample

theorem name_capacity_sample :
    (siteRun Sample.env Sample.freshSite [.start Sample.roomyRegistry 5]).world.db.capSum
      ≤ nameCapacity
    ∧ (start Sample.env Sample.freshSite Sample.roomyRegistry 5).world.db.capSum = 9100 := by
  have hconfig : readConfig Sample.roomyRegistry
      = .ok (⟨"default", "d", 1⟩, [⟨"beta", "b", 9000⟩], some 100) := by decide
  have hfits : StartFits Sample.env Sample.freshSite Sample.roomyRegistry 5 := by
    intro seed others n h _ _
    obtain ⟨rfl, rfl, rfl⟩ := by simpa using hconfig.symm.trans h
    decide
  have hrun := (name_capacity Sample.env Sample.freshSite (by decide) (by decide)
    [.start Sample.roomyRegistry 5]).mpr
    ⟨fun cfg crash heq => by obtain ⟨rfl, rfl⟩ := SiteStep.start.inj heq; exact hfits, trivial⟩ 1
  exact ⟨hrun, by decide⟩

/-- The registry passes validation, and the first start with a pool goes beyond the catalog. -/
theorem name_capacity_exceeded :
    ¬∀ (env : Env) (site : Site) (steps : List SiteStep), site.world.db.capSum ≤ nameCapacity →
      Keyed (·.id) site.world.db.enterprises →
      (siteRun env site steps).world.db.capSum ≤ nameCapacity := by
  intro hall
  have hle := hall Sample.env Sample.freshSite [.start Sample.fullRegistry 5] (by decide) (by decide)
  have hsum : (siteRun Sample.env Sample.freshSite
      [.start Sample.fullRegistry 5]).world.db.capSum = 10099 := by decide
  rw [hsum] at hle
  exact absurd hle (by decide)

end GhcpConsole.Pool
