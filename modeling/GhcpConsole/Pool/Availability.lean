import GhcpConsole.Pool.CreationPlan
import GhcpConsole.Pool.Draining
import GhcpConsole.Pool.Generation
import GhcpConsole.Pool.Renewal

/-!
# Idle capacity is granted

A lease that has expired, a hold past its deadline and a cooldown that is over stand in nobody's way, however
they were left behind: the sweep at the beginning of an admission frees the member, and a caller without a
binding of its own gets that member or another one.
-/

namespace GhcpConsole.Pool

variable {env : Env} {w w' : World} {caller identity : String} {t : Nat}

namespace Db

/-- The member can be leased once a sweep at `t` has ended what is over: it is ready, or cools until then. -/
structure Serviceable (db : Db) (identity : String) (t : Nat) : Prop where
  row : ∃ m, db.inventory identity = some m ∧ m.verifiedAt.isSome
    ∧ (m.state = .ready ∨ m.state = .cooling ∧ m.cooldownUntil ≤ t)
    ∧ ∃ e, db.enterprise m.enterpriseId = some e ∧ e.state = .active
  usable : db.usable identity = true

/-- Every binding of the member is over at `t`. -/
structure Lapsed (db : Db) (identity : String) (t : Nat) : Prop where
  leases : ∀ l ∈ db.leases, l.memberIdentity = identity → l.expiresAt ≤ t
  holds : ∀ h ∈ db.holds, ∀ l ∈ db.leases, l.leaseId = h.leaseId → l.memberIdentity = identity → h.expiresAt ≤ t
  catalogHolds : ∀ c ∈ db.catalogHolds, c.memberIdentity = identity → c.expiresAt ≤ t

/-- The caller has no lease and no catalog hold, and it does not have to wait after `t`. -/
structure Newcomer (db : Db) (caller : String) (t : Nat) : Prop where
  leases : ∀ l ∈ db.leases, l.callerId ≠ caller
  catalogHolds : ∀ c ∈ db.catalogHolds, c.callerId ≠ caller
  cooldowns : ∀ c ∈ db.catalogCooldowns, c.callerId = caller → c.expiresAt ≤ t

/-- During the sweep: nothing holds the member, and the caller is as it was. -/
structure Sweeping (caller identity : String) (t : Nat) (m : Inventory) (db : Db) : Prop where
  row : db.inventory identity = some m
  ready : m.state = .ready ∧ m.verifiedAt.isSome
  enterprise : ∃ e, db.enterprise m.enterpriseId = some e ∧ e.state = .active
  usable : db.usable identity = true
  leases : ∀ l ∈ db.leases, l.memberIdentity = identity → l.expiresAt ≤ t
  holds : ∀ h ∈ db.holds, ∀ l ∈ db.leases, l.leaseId = h.leaseId → l.memberIdentity ≠ identity
  catalogHolds : ∀ c ∈ db.catalogHolds, c.memberIdentity ≠ identity
  callerLeases : ∀ l ∈ db.leases, l.callerId ≠ caller
  callerCatalog : ∀ c ∈ db.catalogHolds, c.callerId ≠ caller
  cooldowns : ∀ c ∈ db.catalogCooldowns, c.callerId ≠ caller
  counts : ∀ e ∈ db.enterprises, isCount e.maxAccounts = true ∧ isCount e.inventoryCount = true

end Db

/-! ## The sweep -/

/-- What `deleteExpired...` and `wakeCooled` leave. -/
theorem sweeping_expire {db : Db} (member : db.Serviceable identity t) (lapsed : db.Lapsed identity t)
    (newcomer : db.Newcomer caller t)
    (counts : ∀ e ∈ db.enterprises, isCount e.maxAccounts = true ∧ isCount e.inventoryCount = true) :
    ∃ m, Db.Sweeping caller identity t m (db.expire t) := by
  obtain ⟨m, row, verified, state, enterprise⟩ := member.row
  have hkey : ∀ m : Inventory, (if m.state = .cooling ∧ m.cooldownUntil ≤ t then
      { m with state := .ready, cooldownUntil := 0, updatedAt := t } else m).identity = m.identity :=
    fun m => by split <;> rfl
  have woken : (db.expire t).inventory identity = some (if m.state = .cooling ∧ m.cooldownUntil ≤ t then
      { m with state := .ready, cooldownUntil := 0, updatedAt := t } else m) := by
    change ((db.members.map _).find? _) = _
    rw [find?_map hkey]
    rw [Db.inventory] at row
    rw [row]
    rfl
  refine ⟨_, woken, ?_, ?_, member.usable, lapsed.leases, ?_, ?_, newcomer.leases, ?_, ?_, counts⟩
  · rcases state with ready | cooling
    · rw [if_neg (by simp [ready])]
      exact ⟨ready, verified⟩
    · rw [if_pos cooling]
      exact ⟨rfl, verified⟩
  · split <;> exact enterprise
  · intro h mem l inLeases same named
    obtain ⟨mem, live⟩ := List.mem_filter.mp mem
    have ended := lapsed.holds h mem l inLeases same named
    exact absurd (of_decide_eq_true live) (Nat.not_lt.mpr ended)
  · intro c mem named
    obtain ⟨mem, live⟩ := List.mem_filter.mp mem
    exact absurd (of_decide_eq_true live) (Nat.not_lt.mpr (lapsed.catalogHolds c mem named))
  · exact fun c mem => newcomer.catalogHolds c (List.mem_of_mem_filter mem)
  · intro c mem named
    obtain ⟨mem, live⟩ := List.mem_filter.mp mem
    exact absurd (of_decide_eq_true live) (Nat.not_lt.mpr (newcomer.cooldowns c mem named))

namespace Db.Sweeping

variable {m : Inventory}

/-- Rows may go, and leases may be cut short. -/
theorem of_rows {db db' : Db} (h : Db.Sweeping caller identity t m db) (row : db'.inventory identity = some m)
    (accounts : db'.accounts = db.accounts) (enterprises : db'.enterprises = db.enterprises)
    (leases : ∀ l' ∈ db'.leases, ∃ l ∈ db.leases, l.leaseId = l'.leaseId ∧ l.callerId = l'.callerId
      ∧ l.memberIdentity = l'.memberIdentity ∧ l'.expiresAt ≤ l.expiresAt)
    (holds : ∀ x ∈ db'.holds, x ∈ db.holds) (catalogHolds : db'.catalogHolds = db.catalogHolds)
    (cooldowns : db'.catalogCooldowns = db.catalogCooldowns) : Db.Sweeping caller identity t m db' where
  row := row
  ready := h.ready
  enterprise := by
    simpa only [Db.enterprise, enterprises] using h.enterprise
  usable := by
    simpa only [Db.usable, Db.account, accounts] using h.usable
  leases := by
    intro l' mem named
    obtain ⟨l, mem, -, -, member, sooner⟩ := leases l' mem
    exact Nat.le_trans sooner (h.leases l mem (member.trans named))
  holds := by
    intro x mem l' inLeases same named
    obtain ⟨l, inLeases, id, -, member, -⟩ := leases l' inLeases
    exact h.holds x (holds x mem) l inLeases (id.trans same) (member.trans named)
  catalogHolds := catalogHolds ▸ h.catalogHolds
  callerLeases := by
    intro l' mem own
    obtain ⟨l, mem, -, id, -⟩ := leases l' mem
    exact h.callerLeases l mem (id.trans own)
  callerCatalog := catalogHolds ▸ h.callerCatalog
  cooldowns := cooldowns ▸ h.cooldowns
  counts := enterprises ▸ h.counts

/-- A patch of another member. -/
theorem patched {db : Db} (h : Db.Sweeping caller identity t m db) {other : String} (hne : other ≠ identity)
    (patch : Patch) (row : Inventory) (s s' : Nat) :
    Db.Sweeping caller identity t m (db.patched other patch row s s') := by
  have mapped : ∀ f : Inventory → Inventory, (∀ m, (f m).identity = m.identity) →
      (db.mapMember other f).inventory identity = some m := by
    intro f hf
    have own : m.identity = identity := by simpa using List.find?_some h.row
    rw [inventory_mapMember f hf, h.row, Option.map_some, if_neg]
    rw [own]
    exact fun same => hne same.symm
  unfold Db.patched
  split
  · refine h.of_rows (mapped _ fun _ => rfl) rfl rfl ?_ (fun _ mem => mem) rfl rfl
    intro l' mem
    obtain ⟨l, before, rfl⟩ := List.mem_map.mp mem
    refine ⟨l, before, ?_⟩
    split
    · exact ⟨rfl, rfl, rfl, Nat.min_le_left _ _⟩
    · exact ⟨rfl, rfl, rfl, Nat.le_refl _⟩
  · exact h.of_rows (mapped _ fun _ => rfl) rfl rfl (fun l mem => ⟨l, mem, rfl, rfl, rfl, Nat.le_refl _⟩)
      (fun _ mem => mem) rfl rfl

/-- A loop of updates of other members. -/
theorem updates (h : Db.Sweeping caller identity t m w.db) {ids : List String} (hne : identity ∉ ids)
    {patch : Patch} (hrun : (ids.forM fun identity => do
      let _ ← Pool.update env identity patch none none) w = (.ok ⟨⟩, w')) :
    Db.Sweeping caller identity t m w'.db := by
  have hend := Tx.forM_eq_ok (fun ids v => Db.Sweeping caller identity t m v.db ∧ identity ∉ ids)
    (fun other ids v v' hv hstep => ?_) ⟨h, hne⟩ hrun
  · exact hend.1
  · obtain ⟨b, v₁, hupd, hret⟩ := Tx.bind_eq_ok.mp hstep
    obtain ⟨-, rfl⟩ := by simpa using hret
    obtain ⟨sweeping, mem⟩ := hv
    refine ⟨?_, fun later => mem (List.mem_cons_of_mem _ later)⟩
    rcases update_cases env other patch none none v with ⟨b', u, hrun', ha, -⟩ | ⟨u, row, hrun', hup⟩
    · obtain rfl := (Prod.mk.inj (hupd.symm.trans hrun')).2
      exact ha.db ▸ sweeping
    · obtain rfl := (Prod.mk.inj (hupd.symm.trans hrun')).2
      obtain ⟨s, s', hdb⟩ := hup.db
      exact hdb ▸ sweeping.patched (fun same => mem (same ▸ List.mem_cons_self)) patch row s s'

theorem not_hasHolds {db : Db} (h : Db.Sweeping caller identity t m db) (s : Nat) :
    db.hasHolds identity s = false := by
  rw [Db.hasHolds, Bool.or_eq_false_iff]
  constructor
  · rw [List.any_eq_false]
    intro x mem pins
    simp only [Bool.and_eq_true, decide_eq_true_eq, List.any_eq_true] at pins
    obtain ⟨-, l, inLeases, same, named⟩ := pins
    exact h.holds x mem l inLeases same named
  · rw [List.any_eq_false]
    intro c mem pins
    simp only [Bool.and_eq_true, decide_eq_true_eq] at pins
    exact h.catalogHolds c mem pins.1

/-- One round of the last loop: a lease of the member goes. -/
theorem reclaimLease {lease : LeaseRow} {rest : List LeaseRow} (h : Db.Sweeping caller identity t m w.db)
    (listed : ∀ l ∈ w.db.leases, l.memberIdentity = identity → l ∈ lease :: rest)
    (hrun : Pool.reclaimLease env lease w = (.ok ⟨⟩, w')) :
    Db.Sweeping caller identity t m w'.db ∧ ∀ l ∈ w'.db.leases, l.memberIdentity = identity → l ∈ rest := by
  cases hheld : w.db.hasHolds lease.memberIdentity (env.clock w.ticks) with
  | true =>
      simp [Pool.reclaimLease, Pool.hasHolds, Tx.bind_run, hheld] at hrun
      rw [← hrun]
      refine ⟨h, fun l mem named => (List.mem_cons.mp (listed l mem named)).resolve_left ?_⟩
      rintro rfl
      rw [named, h.not_hasHolds] at hheld
      cases hheld
  | false =>
      obtain ⟨events, hev⟩ := recordEvent_run env
        { action := "lease_expired", identity := lease.memberIdentity,
          caller := lease.callerId, leaseId := lease.leaseId }
        { w with ticks := w.ticks + 1, db := (Stmt.deleteLease lease.leaseId).apply w.db }
      simp [Pool.reclaimLease, Pool.hasHolds, Tx.bind_run, hheld, hev] at hrun
      rw [← hrun]
      refine ⟨h.of_rows h.row rfl rfl (fun l mem => ⟨l, List.mem_of_mem_filter mem, rfl, rfl, rfl, Nat.le_refl _⟩)
        (fun _ mem => List.mem_of_mem_filter mem) rfl rfl, fun l mem named => ?_⟩
      obtain ⟨mem, other⟩ := List.mem_filter.mp mem
      refine (List.mem_cons.mp (listed l mem named)).resolve_left ?_
      rintro rfl
      simp at other

theorem reclaimLeases {rest : List LeaseRow} (h : Db.Sweeping caller identity t m w.db)
    (listed : ∀ l ∈ w.db.leases, l.memberIdentity = identity → l ∈ rest)
    (hrun : rest.forM (Pool.reclaimLease env) w = (.ok ⟨⟩, w')) :
    Db.Sweeping caller identity t m w'.db ∧ ∀ l ∈ w'.db.leases, l.memberIdentity ≠ identity := by
  have hend := Tx.forM_eq_ok (fun rest v => Db.Sweeping caller identity t m v.db
    ∧ ∀ l ∈ v.db.leases, l.memberIdentity = identity → l ∈ rest)
    (fun lease rest v v' hv hstep => hv.1.reclaimLease hv.2 hstep) ⟨h, listed⟩ hrun
  exact ⟨hend.1, fun l mem named => by cases hend.2 l mem named⟩

theorem not_mem_invalidMembers {db : Db} (h : Db.Sweeping caller identity t m db) : identity ∉ invalidMembers db := by
  intro mem
  obtain ⟨p, mem, named⟩ := List.mem_map.mp mem
  obtain ⟨-, state⟩ := List.mem_filter.mp mem
  have usable := h.usable
  rw [named, Bool.and_eq_true] at state
  have invalid := state.2
  unfold Db.usable at usable
  cases account : db.account identity with
  | none => simp [account] at usable
  | some a => simp_all

theorem not_mem_unverifiedMembers {db : Db} (h : Db.Sweeping caller identity t m db) (hI : db.Integrity) :
    identity ∉ unverifiedMembers db := by
  intro mem
  obtain ⟨p, mem, named⟩ := List.mem_map.mp mem
  obtain ⟨mem, state⟩ := List.mem_filter.mp mem
  have row : db.inventory p.identity = some p := hI.members.find? mem
  rw [named, h.row] at row
  obtain rfl := Option.some.inj row
  simp only [Bool.and_eq_true, decide_eq_true_eq] at state
  have verified := h.ready.2
  rw [Option.isNone_iff_eq_none.mp state.2] at verified
  cases verified

theorem mem_expiredLeases {db : Db} (h : Db.Sweeping caller identity t m db) {l : LeaseRow} (mem : l ∈ db.leases)
    (named : l.memberIdentity = identity) : l ∈ expiredLeases db t := by
  refine List.mem_filter.mpr ⟨mem, ?_⟩
  rw [named, h.row]
  simp [h.leases l mem named, h.ready.1]

end Db.Sweeping

theorem updates_integrity {patch : Patch} (hp : patch.Sweeping) {ids : List String} (hI : w.db.Integrity)
    (hrun : (ids.forM fun identity => do
      let _ ← update env identity patch none none) w = (.ok ⟨⟩, w')) : w'.db.Integrity := by
  have hvia : Tx.Via (Step env Stmt.Upkeep) w (ids.forM fun identity => do
      let _ ← update env identity patch none none) w := via_updates (fun _ h => h) hp ids w
  rw [Tx.Via, hrun] at hvia
  exact Steps.invariant (P := fun w => w.db.Integrity) (fun _ _ hstep h => hstep.integrity h) hvia hI

/-- An update never throws. -/
theorem update_total (env : Env) (identity : String) (patch : Patch) (w : World) :
    ∃ b w', update env identity patch none none w = (.ok b, w') := by
  rcases update_cases env identity patch none none w with ⟨b, w', hrun, -⟩ | ⟨w', row, hrun, -⟩
  · exact ⟨b, w', hrun⟩
  · exact ⟨true, w', hrun⟩

theorem updates_total (env : Env) (patch : Patch) (ids : List String) (w : World) : ∃ w', (ids.forM fun identity => do
    let _ ← update env identity patch none none) w = (.ok ⟨⟩, w') := by
  refine Tx.forM_total (fun identity v => ?_) ids w
  obtain ⟨b, v', hrun⟩ := update_total env identity patch v
  exact ⟨v', Tx.bind_ok hrun⟩

theorem reclaimLease_total (env : Env) (lease : LeaseRow) (w : World) : ∃ w', reclaimLease env lease w = (.ok ⟨⟩, w') := by
  cases hheld : w.db.hasHolds lease.memberIdentity (env.clock w.ticks) with
  | true => exact ⟨{ w with ticks := w.ticks + 1 }, by simp [reclaimLease, hasHolds, Tx.bind_run, hheld]⟩
  | false =>
      obtain ⟨events, hev⟩ := recordEvent_run env
        { action := "lease_expired", identity := lease.memberIdentity,
          caller := lease.callerId, leaseId := lease.leaseId }
        { w with ticks := w.ticks + 1, db := (Stmt.deleteLease lease.leaseId).apply w.db }
      exact ⟨_, by simp [reclaimLease, hasHolds, Tx.bind_run, hheld, hev]; rfl⟩

/-- The sweep frees the member. -/
theorem reclaim_frees (hI : w.db.Integrity) (member : w.db.Serviceable identity (env.clock w.ticks))
    (lapsed : w.db.Lapsed identity (env.clock w.ticks)) (newcomer : w.db.Newcomer caller (env.clock w.ticks))
    (counts : ∀ e ∈ w.db.enterprises, isCount e.maxAccounts = true ∧ isCount e.inventoryCount = true) :
    ∃ m w', reclaim env w = (.ok (), w') ∧ Db.Sweeping caller identity (env.clock w.ticks) m w'.db
      ∧ ∀ l ∈ w'.db.leases, l.memberIdentity ≠ identity := by
  obtain ⟨m, start⟩ := sweeping_expire member lapsed newcomer counts
  let w₀ : World := { w with ticks := w.ticks + 1, db := w.db.expire (env.clock w.ticks) }
  let notValid : Patch :=
    { state := some .failed, lastError := some (some "credential_not_valid")
      retryAt := some (env.clock w.ticks + 30000) }
  obtain ⟨w₁, hinvalid⟩ := updates_total env notValid (invalidMembers w₀.db) w₀
  let notVerified : Patch :=
    { state := some .failed, stage := some .warmup, lastError := some (some "credential_not_verified")
      retryAt := some (env.clock w.ticks) }
  obtain ⟨w₂, hunverified⟩ := updates_total env notVerified (unverifiedMembers w₁.db) w₁
  obtain ⟨w₃, hexpired⟩ := Tx.forM_total (fun lease v => reclaimLease_total env lease v)
    (expiredLeases w₂.db (env.clock w.ticks)) w₂
  have sweeping₁ : Db.Sweeping caller identity (env.clock w.ticks) m w₁.db :=
    start.updates start.not_mem_invalidMembers hinvalid
  have integrity : w₁.db.Integrity :=
    updates_integrity ⟨rfl, .inl rfl, rfl, rfl, rfl, rfl⟩ (expire_integrity env hI) hinvalid
  have sweeping₂ : Db.Sweeping caller identity (env.clock w.ticks) m w₂.db :=
    sweeping₁.updates (sweeping₁.not_mem_unverifiedMembers integrity) hunverified
  have listed : ∀ l ∈ w₂.db.leases, l.memberIdentity = identity → l ∈ expiredLeases w₂.db (env.clock w.ticks) :=
    fun l mem named => sweeping₂.mem_expiredLeases mem named
  have done := sweeping₂.reclaimLeases listed hexpired
  refine ⟨m, w₃, ?_, done⟩
  refine Tx.transaction_eq_ok.mpr ?_
  rw [Tx.bind_ok (now_run env w), Tx.bind_ok (exec_run _ _), Tx.bind_ok (exec_run _ _),
    Tx.bind_ok (exec_run _ _), Tx.bind_ok (exec_run _ _), Tx.bind_ok (select_run _ _)]
  refine (Tx.bind_ok hinvalid).trans ?_
  rw [Tx.bind_ok (select_run _ _)]
  refine (Tx.bind_ok hunverified).trans ?_
  rw [Tx.bind_ok (select_run _ _)]
  exact hexpired

/-! ## The admission -/

section Admission

variable {db : Db} {m : Inventory}

/-- Every active enterprise is in the caller's order. -/
theorem mem_admissionOrder (hI : db.Integrity)
    (counts : ∀ e ∈ db.enterprises, isCount e.maxAccounts = true ∧ isCount e.inventoryCount = true)
    (callerHash : String → String → String) (caller : String) :
    ∃ order, admissionOrder callerHash (schedulingEnterprises db) caller = .ok order
      ∧ ∀ id e, db.enterprise id = some e → e.state = .active → id ∈ order := by
  have sorted : ((schedulingEnterprises db).map (·.id)).Perm (db.enterprises.map (·.id)) :=
    (List.perm_insertionSort _ db.enterprises).map _
  have keyed : Keyed (·.id) (schedulingEnterprises db) := sorted.nodup_iff.mpr hI.enterprises
  have valid : assertEnterprises (((schedulingEnterprises db).filter isActive).map fun row =>
      (⟨row.id, row.maxAccounts, row.inventoryCount, true⟩ : PoolEnterprise)) = .ok () := by
    refine assertEnterprises_ok ⟨?_, ?_⟩
    · rw [Keyed, List.map_map]
      exact keyed.filter isActive
    · intro row mem
      obtain ⟨e, active, rfl⟩ := List.mem_map.mp mem
      exact counts e (mem_schedulingEnterprises.mp (List.mem_of_mem_filter active))
  refine ⟨_, by rw [admissionOrder, rankEnterprisesForAdmission, valid], ?_⟩
  intro id e row active
  have own : e.id = id := by simpa using List.find?_some row
  refine List.mem_map.mpr ⟨⟨e.id, e.maxAccounts, e.inventoryCount, true⟩, ?_, own⟩
  refine (List.mem_insertionSort _).mpr (List.mem_filter.mpr ⟨List.mem_map.mpr ⟨e, ?_, rfl⟩, rfl⟩)
  refine List.mem_filter.mpr ⟨mem_schedulingEnterprises.mpr (List.mem_of_find?_eq_some row), ?_⟩
  simpa [isActive] using active

theorem leasable_of_idleMember (hI : db.Integrity) {enterpriseId : String}
    (h : db.idleMember enterpriseId = some identity) : db.Leasable identity := by
  obtain ⟨m, mem, rfl⟩ := List.mem_map.mp (List.mem_of_mem_head? h)
  have mem := mem_orderBy.mp mem
  simp only [List.mem_filter, Bool.and_eq_true, decide_eq_true_eq] at mem
  obtain ⟨mem, ⟨⟨⟨-, ready⟩, verified⟩, usable⟩, -⟩ := mem
  exact ⟨⟨m, hI.members.find? mem, ready, verified⟩, usable⟩

theorem exists_firstIdle (hI : db.Integrity) {enterpriseId : String} (idle : db.idleMember enterpriseId ≠ none) :
    ∀ {order : List String}, enterpriseId ∈ order →
      ∃ member, firstIdle db order = some member ∧ db.Leasable member.identity
  | other :: rest, mem => by
      unfold firstIdle
      cases first : db.idleMember other with
      | some identity => exact ⟨_, rfl, leasable_of_idleMember hI first⟩
      | none =>
          rcases List.mem_cons.mp mem with rfl | later
          · exact absurd first idle
          · exact exists_firstIdle hI idle later

/-- The member is idle once nobody is bound to it. -/
theorem idleMember_ne_none (h : Db.Sweeping caller identity t m db)
    (free : ∀ l ∈ db.leases, l.memberIdentity ≠ identity) : db.idleMember m.enterpriseId ≠ none := by
  have own : m.identity = identity := by simpa using List.find?_some h.row
  have mem : m ∈ db.members := List.mem_of_find?_eq_some h.row
  have unbound : db.unbound m.identity = true := by
    rw [own, Db.unbound, Bool.and_eq_true, Bool.not_eq_true', Bool.not_eq_true', List.any_eq_false, List.any_eq_false]
    exact ⟨fun l mem named => free l mem (of_decide_eq_true named),
      fun c mem named => h.catalogHolds c mem (of_decide_eq_true named)⟩
  unfold Db.idleMember
  rw [Ne, List.head?_eq_none_iff, List.map_eq_nil_iff]
  refine List.ne_nil_of_mem (mem_orderBy.mpr (List.mem_filter.mpr ⟨mem, ?_⟩))
  simp [h.ready.1, h.ready.2, own, h.usable, own ▸ unbound]

/-- A newcomer gets a member that can be leased. -/
theorem availableMember_sweeping (env : Env) (h : Db.Sweeping caller identity t m w.db) (hI : w.db.Integrity)
    (free : ∀ l ∈ w.db.leases, l.memberIdentity ≠ identity) :
    ∃ member, availableMember env caller w = (.ok member, w) ∧ w.db.Leasable member.identity
      ∧ w.db.unbound member.identity = true := by
  obtain ⟨order, ranked, all⟩ := mem_admissionOrder hI h.counts env.callerHash caller
  obtain ⟨e, row, active⟩ := h.enterprise
  obtain ⟨member, first, leasable⟩ := exists_firstIdle hI (idleMember_ne_none h free) (all _ e row active)
  have catalog : w.db.callerCatalog caller = none := by
    have none : w.db.catalogHolds.filter (fun h => h.callerId = caller) = [] :=
      List.filter_eq_nil_iff.mpr fun c mem own => h.callerCatalog c mem (of_decide_eq_true own)
    rw [Db.callerCatalog, none]
    rfl
  refine ⟨member, ?_, leasable, firstIdle_unbound first⟩
  simp [availableMember, Tx.bind_run, catalog, ranked, first, ofExcept, Tx.rethrow]

theorem assertReady_leasable (env : Env) (h : w.db.Leasable identity) : assertReady env identity w = (.ok (), w) := by
  obtain ⟨m, row, ready, verified⟩ := h.row
  have some : m.verifiedAt ≠ none := Option.isSome_iff_ne_none.mp verified
  simp [assertReady, Tx.bind_run, row, ready, some, h.usable]

theorem insertLease_total (known : w.Identified env) (newcomer : ∀ l ∈ w.db.leases, l.callerId ≠ caller)
    {member : PoolMember} (unbound : w.db.unbound member.identity = true) (t : Nat) :
    ∃ lease w', insertLease env caller member t w = (.ok lease, w') ∧ lease.callerId = caller
      ∧ lease.memberIdentity = member.identity ∧ w'.db.members = w.db.members ∧ w'.db.accounts = w.db.accounts := by
  have unique : (w.db.leases.any fun l => l.callerId = caller
      || l.memberIdentity = member.identity || l.leaseId = env.uuid w.uuids) = false := by
    rw [List.any_eq_false]
    intro l mem
    rw [Db.unbound, Bool.and_eq_true, Bool.not_eq_true', List.any_eq_false] at unbound
    have other := unbound.1 l mem
    have new : l.leaseId ≠ env.uuid w.uuids := by
      obtain ⟨n, before, id⟩ := known.leases l mem
      rw [← id]
      exact fun same => Nat.lt_irrefl _ (env.uuid_inj same ▸ before)
    simp only [decide_eq_true_eq] at other
    simp [newcomer l mem, other, new]
  let row : LeaseRow :=
    { callerId := caller, memberIdentity := member.identity, leaseId := env.uuid w.uuids
      phase := .provisional, assignedAt := t, lastSuccessAt := none
      expiresAt := t + env.options.provisionalSeconds * 1000 }
  let inserted : World := { w with uuids := w.uuids + 1, db := (Stmt.insertLease row).apply w.db }
  let fields : EventFields :=
    { action := "lease_acquired", identity := member.identity, caller := caller, leaseId := env.uuid w.uuids }
  refine ⟨{ callerId := caller, memberIdentity := member.identity, enterpriseId := member.enterpriseId
            leaseId := env.uuid w.uuids, phase := .provisional, assignedAt := t, lastSuccessAt := none
            expiresAt := row.expiresAt }, (recordEvent env fields inserted).2, ?_, rfl, rfl, rfl, rfl⟩
  simp only [insertLease, Tx.bind_run, require, select_run, randomUuid_run, unique]
  rfl

theorem hold_total (env : Env) {lease : Lease} {m : Inventory} (row : w.db.inventory lease.memberIdentity = some m)
    (timeoutMs : Nat) : ∃ held w', hold env lease .lease timeoutMs w = (.ok held, w') ∧ held.toLease = lease
      ∧ w'.db.members = w.db.members ∧ w'.db.accounts = w.db.accounts := by
  let inserted : HoldRow :=
    { requestId := env.uuid w.uuids, leaseId := lease.leaseId
      expiresAt := env.clock w.ticks + timeoutMs + holdDrainMs, deadlineAt := env.clock w.ticks + timeoutMs
      generation := m.generation }
  refine ⟨{ lease with requestId := env.uuid w.uuids, kind := .lease, deadlineAt := env.clock w.ticks + timeoutMs },
    { w with uuids := w.uuids + 1, ticks := w.ticks + 1, db := (Stmt.insertHold inserted).apply w.db }, ?_, rfl, rfl, rfl⟩
  simp [hold, Tx.bind_run, row, inserted]

/-- The lease of a newcomer, and the hold on it. -/
theorem acquireBody_sweeping (h : Db.Sweeping caller identity t m w.db) (hI : w.db.Integrity)
    (known : w.Identified env) (free : ∀ l ∈ w.db.leases, l.memberIdentity ≠ identity) (timeoutMs : Nat) :
    ∃ held w', acquireBody env caller timeoutMs w = (.ok held, w') ∧ held.callerId = caller
      ∧ w'.db.Leasable held.memberIdentity := by
  have notCooling : w.db.catalogCooldowns.find? (fun c => c.callerId = caller && env.clock w.ticks < c.expiresAt)
      = none := by
    rw [List.find?_eq_none]
    intro c mem own
    rw [Bool.and_eq_true] at own
    exact h.cooldowns c mem (of_decide_eq_true own.1)
  have noLease : w.db.callerLease caller = none := by
    rw [Db.callerLease, List.head?_eq_none_iff, List.filterMap_eq_nil_iff]
    exact fun l mem => if_neg (h.callerLeases l mem)
  let w₂ : World := { w with ticks := w.ticks + 2 }
  have known₂ : w₂.Identified env := ⟨known.leases, known.holds, known.catalogHolds, known.requests, known.catalogRequests⟩
  obtain ⟨member, available, leasable, unbound⟩ := availableMember_sweeping (w := w₂) env h hI free
  have ready := assertReady_leasable env (w := w₂) leasable
  obtain ⟨lease, w₃, inserted, own, named, members, accounts⟩ :=
    insertLease_total (w := w₂) known₂ h.callerLeases unbound (env.clock (w.ticks + 1))
  obtain ⟨m', row, -⟩ := leasable.row
  have row₃ : w₃.db.inventory lease.memberIdentity = some m' := by
    rw [Db.inventory, members, named]
    exact row
  obtain ⟨held, w₄, holding, same, members₄, accounts₄⟩ := hold_total env row₃ timeoutMs
  refine ⟨held, w₄, ?_, ?_, ?_⟩
  · have first : assertCallerNotCooling env caller w = (.ok (), { w with ticks := w.ticks + 1 }) := by
      simp [assertCallerNotCooling, Tx.bind_run, notCooling]
    rw [acquireBody, Tx.bind_ok first, Tx.bind_ok (now_run env _), Tx.bind_ok (select_run _ _), noLease]
    exact (Tx.bind_ok available).trans ((Tx.bind_ok ready).trans ((Tx.bind_ok inserted).trans holding))
  · rw [same, own]
  · rw [same, named]
    exact leasable.congr (members₄.trans members) (accounts₄.trans accounts)

end Admission

/-- A request timeout that is taken: none, or one within its bounds. -/
def AllowedTimeout (requestTimeoutMs : Option Int) : Prop := ∀ v ∈ requestTimeoutMs, 5000 ≤ v ∧ v ≤ 600000

/-- Through any run: a caller that is bound to nobody gets a member whenever there is one that can be leased and
whose bindings are all over, however they came to be left in the tables. -/
theorem idle_capacity_granted (env : Env) (w : World) (hw : w.db.Initial) (ops : List Op) (caller identity : String)
    (valid : validCaller caller = true) (requestTimeoutMs : Option Int) (allowed : AllowedTimeout requestTimeoutMs)
    (counts : ∀ e ∈ (run env w ops).db.enterprises, e.maxAccounts < 2 ^ 53 ∧ e.inventoryCount < 2 ^ 53)
    (newcomer : (run env w ops).db.Newcomer caller (env.clock (run env w ops).ticks))
    (member : (run env w ops).db.Serviceable identity (env.clock (run env w ops).ticks))
    (lapsed : (run env w ops).db.Lapsed identity (env.clock (run env w ops).ticks)) :
    ∃ held w', acquire env caller false requestTimeoutMs (run env w ops) = (.ok held, w')
      ∧ held.callerId = caller ∧ w'.db.Leasable held.memberIdentity := by
  have integrity := run_integrity env hw.toIntegrity ops
  obtain ⟨m, v, swept, sweeping, free⟩ := reclaim_frees integrity member lapsed newcomer
    fun e mem => ⟨decide_eq_true (counts e mem).1, decide_eq_true (counts e mem).2⟩
  have steps := reclaim_steps swept
  have known : v.Identified env :=
    steps.invariant (fun _ _ hstep h => hstep.identified h) (run_identified env hw.identified ops)
  have integrity' : v.db.Integrity :=
    steps.invariant (P := fun w => w.db.Integrity) (fun _ _ hstep h => hstep.integrity h) integrity
  obtain ⟨timeoutMs, timeout⟩ : ∃ timeoutMs, inferenceHoldTimeoutMs requestTimeoutMs env.options.requestTimeoutMs
      (run env w ops) = (.ok timeoutMs, run env w ops) := by
    cases requestTimeoutMs with
    | none => exact ⟨_, rfl⟩
    | some v =>
        have safe : isSafeInteger v && 5000 ≤ v && v ≤ 600000 := by
          have bounds := allowed v rfl
          simp [isSafeInteger]
          omega
        exact ⟨v.toNat, by rw [inferenceHoldTimeoutMs, if_pos safe]; rfl⟩
  obtain ⟨held, w', body, own, leasable⟩ := acquireBody_sweeping sweeping integrity' known free timeoutMs
  have normal : normalizeCaller caller (run env w ops) = (.ok (), run env w ops) := by
    rw [normalizeCaller, if_pos valid]
    rfl
  refine ⟨held, w', ?_, own, leasable⟩
  have running : throwIfAborted false (run env w ops) = (.ok (), run env w ops) := rfl
  rw [acquire, Tx.bind_ok normal, Tx.bind_ok timeout, Tx.bind_ok running]
  simp [admission, transaction, Tx.transaction, Tx.bind_run, Tx.tryReturn, Tx.rethrow, ofExcept, swept, body]

namespace Sample

/-- A clock that moves a hundred seconds a reading. -/
def slowEnv : Env := { Sample.env with
  clock := fun n => 1000000 + n * 100000
  clock_mono := fun m n h => by dsimp only; omega }

/-- A pool with a single member. -/
def single : World := { world with db := { db with members := [member "aaa.a00" 0] } }

def other : String := "sha256:" ++ String.ofList (List.replicate 64 '1')

theorem single_initial : single.db.Initial where
  members := by decide
  ordinals := by decide
  accounts := by decide
  enterprises := by decide
  leaseIds := .nil
  leaseCallers := .nil
  leaseMembers := .nil
  memberAccount := by decide
  memberEnterprise := by decide
  leaseMember := nofun
  holdLease := nofun
  catalogMember := nofun
  leases := rfl
  holds := rfl
  catalogHolds := rfl

end Sample

/-- The only member of the pool, once another caller's lease and hold on it are over. -/
theorem idle_capacity_granted_lapsed : ∃ held w',
    acquire Sample.slowEnv Sample.caller false none
      (run Sample.slowEnv Sample.single [.acquire Sample.other false none]) = (.ok held, w')
      ∧ held.callerId = Sample.caller ∧ w'.db.Leasable held.memberIdentity := by
  have enterprise : ∃ e, (run Sample.slowEnv Sample.single [.acquire Sample.other false none]).db.enterprise "main"
      = some e ∧ e.state = .active := by
    refine ⟨⟨"main", .active, 10, 2, 1, "", 0, 0⟩, ?_, rfl⟩
    decide +kernel
  refine idle_capacity_granted Sample.slowEnv Sample.single Sample.single_initial [.acquire Sample.other false none]
    Sample.caller "aaa.a00" (by decide +kernel) none nofun (by decide +kernel) ⟨?_, ?_, ?_⟩
    ⟨⟨Sample.member "aaa.a00" 0, ?_, rfl, .inl rfl, enterprise⟩, ?_⟩ ⟨?_, ?_, ?_⟩
  all_goals decide +kernel

end GhcpConsole.Pool
