import Mathlib.Data.List.Induction
import GhcpConsole.Pool.Exclusivity

/-!
# Draining

An enterprise that is not active keeps the bindings it has and gets no new ones. New lease rows and
catalog holds come from admissions only, and the member of a new row is that of the caller's oldest
catalog hold or of the ranking, so it is a member of an enterprise that is active when the admission
runs. That a bound caller stays with its member is the exclusivity of the binding, once the sweep at
the start of the admission has left the binding in place.
-/

namespace GhcpConsole.Pool

open Tx (Via Traces)

variable {env : Env} {A : Stmt → Prop} {w w' : World}

namespace Db

def MemberOf (db : Db) (identity enterpriseId : String) : Prop :=
  ∃ m, db.inventory identity = some m ∧ m.enterpriseId = enterpriseId

def ActiveEnterprise (db : Db) (id : String) : Prop :=
  ∃ e, db.enterprise id = some e ∧ e.state = .active

/-- The member belongs to an active enterprise. -/
def InActive (db : Db) (identity : String) : Prop :=
  ∃ id, db.MemberOf identity id ∧ db.ActiveEnterprise id

end Db

/-! ## What an admission picks -/

theorem idleMember_memberOf {db : Db} {enterpriseId identity : String} (hI : db.Integrity)
    (h : db.idleMember enterpriseId = some identity) : db.MemberOf identity enterpriseId := by
  obtain ⟨m, hm, rfl⟩ := List.mem_map.mp (List.mem_of_mem_head? h)
  have hm := mem_orderBy.mp hm
  simp only [List.mem_filter, Bool.and_eq_true, decide_eq_true_eq] at hm
  exact ⟨m, hI.members.find? hm.1, hm.2.1.1.1.1⟩

theorem firstIdle_memberOf {db : Db} (hI : db.Integrity) {member : PoolMember} :
    ∀ {order : List String}, firstIdle db order = some member →
      member.enterpriseId ∈ order ∧ db.MemberOf member.identity member.enterpriseId
  | enterpriseId :: rest, h => by
      unfold firstIdle at h
      split at h
      · rename_i identity hidle
        cases h
        exact ⟨List.mem_cons_self, idleMember_memberOf hI hidle⟩
      · obtain ⟨hmem, hof⟩ := firstIdle_memberOf hI h
        exact ⟨List.mem_cons_of_mem _ hmem, hof⟩

/-- The ranking of an admission is of active enterprises. -/
theorem admissionOrder_active {db : Db} (hI : db.Integrity)
    {callerHash : String → String → String} {caller : String} {order : List String}
    (h : admissionOrder callerHash (schedulingEnterprises db) caller = .ok order) :
    ∀ id ∈ order, db.ActiveEnterprise id := by
  intro id hid
  unfold admissionOrder rankEnterprisesForAdmission at h
  split at h
  · cases h
  · obtain rfl := Except.ok.inj h
    obtain ⟨row, hrow, rfl⟩ := mem_rankCandidates hid
    obtain ⟨e, he, rfl⟩ := List.mem_map.mp (List.mem_of_mem_filter hrow)
    obtain ⟨he, hactive⟩ := List.mem_filter.mp he
    have hkey := hI.enterprises.find? (mem_schedulingEnterprises.mp he)
    exact ⟨e, hkey, by simpa [isActive] using hactive⟩

theorem callerCatalog_memberOf {db : Db} {caller : String} {member : PoolMember}
    {state : LifecycleState} (h : db.callerCatalog caller = some (member, state)) :
    db.MemberOf member.identity member.enterpriseId
      ∧ ∃ e, db.enterprise member.enterpriseId = some e ∧ e.state = state := by
  obtain ⟨c, -, hmem⟩ := List.mem_filterMap.mp (List.mem_of_mem_head? h)
  simp only [Option.bind_eq_bind, Option.bind_eq_some_iff, Option.pure_def, Option.some.injEq,
    Prod.mk.injEq] at hmem
  obtain ⟨p, hp, e, he, rfl, rfl⟩ := hmem
  exact ⟨⟨p, hp, rfl⟩, e, he, rfl⟩

theorem availableMember_inActive (hI : w.db.Integrity) {caller : String} {member : PoolMember}
    (h : availableMember env caller w = (.ok member, w')) : w.db.InActive member.identity := by
  rcases hcat : w.db.callerCatalog caller with _ | ⟨pinned, state⟩
  · rcases horder : admissionOrder env.callerHash (schedulingEnterprises w.db) caller with e | order
    · simp [availableMember, Tx.bind_run, hcat, horder, ofExcept, Tx.rethrow] at h
    · rcases hidle : firstIdle w.db order with _ | m
      · simp [availableMember, Tx.bind_run, hcat, horder, ofExcept, Tx.rethrow, hidle] at h
      · simp [availableMember, Tx.bind_run, hcat, horder, ofExcept, Tx.rethrow, hidle] at h
        obtain ⟨rfl, -⟩ := h
        obtain ⟨hmem, hof⟩ := firstIdle_memberOf hI hidle
        exact ⟨m.enterpriseId, hof, admissionOrder_active hI horder _ hmem⟩
  · by_cases hactive : state = .active
    · simp [availableMember, Tx.bind_run, hcat, assertEnterpriseActive, hactive] at h
      obtain ⟨rfl, -⟩ := h
      obtain ⟨hof, e, he, hstate⟩ := callerCatalog_memberOf hcat
      exact ⟨pinned.enterpriseId, hof, e, he, hstate.trans hactive⟩
    · simp [availableMember, Tx.bind_run, hcat, assertEnterpriseActive, hactive] at h

/-! ## What an admission inserts -/

theorem insertLease_rows {caller : String} {member : PoolMember} {t : Nat} {lease : Lease}
    (h : insertLease env caller member t w = (.ok lease, w')) :
    ∃ row : LeaseRow, row.callerId = caller ∧ row.memberIdentity = member.identity
      ∧ lease.callerId = caller ∧ lease.memberIdentity = member.identity
      ∧ w'.db.leases = w.db.leases ++ [row] ∧ w'.db.catalogHolds = w.db.catalogHolds := by
  simp only [insertLease, Tx.bind_eq_ok, randomUuid_run, exec_run, Tx.pure_run, Prod.mk.injEq,
    Except.ok.injEq] at h
  obtain ⟨_, _, ⟨rfl, rfl⟩, _, w₂, hreq, _, w₃, ⟨-, rfl⟩, _, w₄, hev, rfl, rfl⟩ := h
  obtain ⟨-, rfl⟩ := require_ok hreq
  obtain ⟨events, hrun⟩ := recordEvent_run env
    { action := "lease_acquired", identity := member.identity, caller := caller,
      leaseId := env.uuid w.uuids } _
  obtain ⟨-, rfl⟩ := Prod.mk.injEq .. ▸ hrun.symm.trans hev
  exact ⟨_, rfl, rfl, rfl, rfl, rfl, rfl⟩

/-- A hold adds a row of its kind, for the caller and the member of its lease. -/
theorem hold_rows {lease : Lease} {kind : HoldKind} {timeoutMs : Nat} {held : HeldLease}
    (h : hold env lease kind timeoutMs w = (.ok held, w')) :
    held.callerId = lease.callerId ∧ held.memberIdentity = lease.memberIdentity
      ∧ w'.db.leases = w.db.leases
      ∧ (kind = .lease → w'.db.catalogHolds = w.db.catalogHolds)
      ∧ (kind = .catalog → ∃ row : CatalogHold, row.callerId = lease.callerId
          ∧ row.memberIdentity = lease.memberIdentity
          ∧ w'.db.catalogHolds = w.db.catalogHolds ++ [row]) := by
  rcases hm : w.db.inventory lease.memberIdentity with _ | m
  · simp [hold, Tx.bind_run, hm] at h
  cases kind with
  | lease =>
      simp [hold, Tx.bind_run, hm] at h
      obtain ⟨rfl, rfl⟩ := h
      exact ⟨rfl, rfl, rfl, fun _ => rfl, by rintro ⟨⟩⟩
  | catalog =>
      simp [hold, Tx.bind_run, hm] at h
      obtain ⟨rfl, rfl⟩ := h
      exact ⟨rfl, rfl, rfl, by rintro ⟨⟩, fun _ => ⟨_, rfl, rfl, rfl⟩⟩

/-- Every binding row is an old one or names a member of an active enterprise. -/
structure Admits (db db' : Db) : Prop where
  leases : ∀ l ∈ db'.leases, (∃ l₀ ∈ db.leases, l₀.leaseId = l.leaseId ∧ l₀.callerId = l.callerId
    ∧ l₀.memberIdentity = l.memberIdentity) ∨ db.InActive l.memberIdentity
  catalogHolds : ∀ c ∈ db'.catalogHolds, c ∈ db.catalogHolds ∨ db.InActive c.memberIdentity

/-- What the body of an admission has done when it returns a handle. -/
structure Admitted (caller : String) (held : HeldLease) (w w' : World) : Prop where
  before : w.Before w'
  admits : Admits w.db w'.db
  leases : ∀ l ∈ w.db.leases, l ∈ w'.db.leases
  catalogHolds : ∀ c ∈ w.db.catalogHolds, c ∈ w'.db.catalogHolds
  bound : w'.db.Bound caller held.memberIdentity

theorem acquireBody_admitted (hI : w.db.Integrity) {caller : String} {timeoutMs : Nat}
    {held : HeldLease} (h : acquireBody env caller timeoutMs w = (.ok held, w')) :
    Admitted caller held w w' := by
  have hbefore : w.Before w' := by
    have hvia : Via (Step env fun _ => True) w (acquireBody env caller timeoutMs) w :=
      via_acquireBody (fun _ _ => trivial) (fun _ _ => trivial) (fun _ => trivial) (.refl w)
    rw [Via, h] at hvia
    exact Steps.before hvia
  obtain ⟨_, w₁, hcool, h⟩ := Tx.bind_eq_ok.mp h
  have ha₁ := ahead_of_run (assertCallerNotCooling_reads caller w) hcool
  rw [Tx.bind_ok (now_run env w₁), Tx.bind_ok (select_run _ _)] at h
  rcases hlease : w.db.callerLease caller with _ | lease
  · simp only [ha₁.db, hlease] at h
    obtain ⟨member, w₂, hmember, h⟩ := Tx.bind_eq_ok.mp h
    have ha₂ := ahead_of_run (availableMember_reads caller _) hmember
    have hactive := availableMember_inActive (w := { w₁ with db := w.db, ticks := w₁.ticks + 1 })
      hI hmember
    obtain ⟨_, w₃, hready, h⟩ := Tx.bind_eq_ok.mp h
    have ha₃ := ahead_of_run (assertReady_reads member.identity _) hready
    have hdb : w₃.db = w.db := ha₃.db.trans ha₂.db
    obtain ⟨lease, w₄, hinsert, h⟩ := Tx.bind_eq_ok.mp h
    obtain ⟨row, hrowCaller, hrowMember, hleaseCaller, hleaseMember, hleases, hcatalog⟩ :=
      insertLease_rows hinsert
    obtain ⟨hcaller, hheld, hleases', hcatalog', -⟩ := hold_rows h
    rw [hleases, hdb] at hleases'
    replace hcatalog' := (hcatalog' rfl).trans (hcatalog.trans (congrArg (·.catalogHolds) hdb))
    refine ⟨hbefore, ⟨?_, ?_⟩, fun l hl => ?_, fun c hc => hcatalog' ▸ hc,
      .inl ⟨row, ?_, hrowCaller, by rw [hrowMember, hheld, hleaseMember]⟩⟩
    · intro l hl
      rw [hleases'] at hl
      rcases List.mem_append.mp hl with hl | hl
      · exact .inl ⟨l, hl, rfl, rfl, rfl⟩
      · obtain rfl := List.mem_singleton.mp hl
        exact .inr (hrowMember ▸ hactive)
    · intro c hc
      exact .inl (hcatalog' ▸ hc)
    · rw [hleases']
      exact List.mem_append_left _ hl
    · rw [hleases']
      exact List.mem_append_right _ (List.mem_singleton_self row)
  · simp only [ha₁.db, hlease] at h
    obtain ⟨_, w₂, hready, h⟩ := Tx.bind_eq_ok.mp h
    have ha₂ := ahead_of_run (assertReady_reads lease.memberIdentity _) hready
    have hdb : w₂.db = w.db := ha₂.db
    obtain ⟨l, hl, m, hcallerId, -, rfl⟩ := Db.callerLease_eq hlease
    split at h
    · cases h
    · obtain ⟨hcaller, hheld, hleases, hcatalog, -⟩ := hold_rows h
      rw [hdb] at hleases
      replace hcatalog := (hcatalog rfl).trans (congrArg (·.catalogHolds) hdb)
      refine ⟨hbefore, ⟨?_, ?_⟩, fun l hl => hleases ▸ hl, fun c hc => hcatalog ▸ hc,
        .inl ⟨l, hleases ▸ hl, hcallerId, hheld.symm⟩⟩
      · intro l hl
        exact .inl ⟨l, hleases ▸ hl, rfl, rfl, rfl⟩
      · intro c hc
        exact .inl (hcatalog ▸ hc)

/-- The member of a catalog admission: that of the caller's lease, while its enterprise is active, or
an available one. -/
theorem catalogMember_inActive (hI : w.db.Integrity) {caller : String} {member : PoolMember}
    (h : catalogMember env caller (w.db.callerLease caller) w = (.ok member, w')) :
    w.db.InActive member.identity := by
  rcases hlease : w.db.callerLease caller with _ | lease
  · rw [hlease] at h
    exact availableMember_inActive hI h
  · rw [hlease] at h
    obtain ⟨l, -, m, -, hm, rfl⟩ := Db.callerLease_eq hlease
    by_cases hactive : (w.db.enterprise m.enterpriseId).map (·.state) = some .active
    · simp [catalogMember, Tx.bind_run, assertEnterpriseActive, hactive] at h
      obtain ⟨rfl, -⟩ := h
      obtain ⟨e, he, hstate⟩ := Option.map_eq_some_iff.mp hactive
      exact ⟨m.enterpriseId, ⟨m, hm, rfl⟩, e, he, hstate⟩
    · simp [catalogMember, Tx.bind_run, assertEnterpriseActive, hactive] at h

theorem acquireCatalogBody_admitted (hI : w.db.Integrity) {caller : String}
    {held : HeldLease} (h : acquireCatalogBody env caller w = (.ok held, w')) :
    Admitted caller held w w' := by
  have hbefore : w.Before w' := by
    have hvia : Via (Step env fun _ => True) w (acquireCatalogBody env caller) w :=
      via_acquireCatalogBody (fun _ _ => trivial) (.refl w)
    rw [Via, h] at hvia
    exact Steps.before hvia
  obtain ⟨_, w₁, hcool, h⟩ := Tx.bind_eq_ok.mp h
  have ha₁ := ahead_of_run (assertCallerNotCooling_reads caller w) hcool
  rw [Tx.bind_ok (select_run _ _)] at h
  obtain ⟨member, w₂, hmember, h⟩ := Tx.bind_eq_ok.mp h
  have ha₂ := ahead_of_run (catalogMember_reads caller _ _) hmember
  have hactive : w.db.InActive member.identity :=
    ha₁.db ▸ catalogMember_inActive (ha₁.db ▸ hI) hmember
  obtain ⟨_, w₃, hready, h⟩ := Tx.bind_eq_ok.mp h
  have ha₃ := ahead_of_run (assertReady_reads member.identity _) hready
  have hdb : w₃.db = w.db := by rw [ha₃.db, ha₂.db, ha₁.db]
  -- whether there is a lease or not, what is left is the hold
  have hhold : ∀ (t t' : Nat) (leaseId : String) (w₄ : World), w₄.db = w.db →
      hold env
        { callerId := caller, memberIdentity := member.identity
          enterpriseId := member.enterpriseId, leaseId := leaseId, phase := .provisional
          assignedAt := t, lastSuccessAt := none, expiresAt := t' }
        .catalog env.options.requestTimeoutMs w₄ = (.ok held, w') →
      Admitted caller held w w' := by
    intro t t' leaseId w₄ hdb₄ h
    obtain ⟨-, hheld, hleases, -, hcatalog⟩ := hold_rows h
    obtain ⟨row, hrowCaller, hrowMember, hcatalog⟩ := hcatalog rfl
    rw [hdb₄] at hleases hcatalog
    refine ⟨hbefore, ⟨?_, ?_⟩, fun l hl => hleases ▸ hl, fun c hc => ?_,
      .inr ⟨row, ?_, hrowCaller, hrowMember.trans hheld.symm⟩⟩
    · intro l hl
      exact .inl ⟨l, hleases ▸ hl, rfl, rfl, rfl⟩
    · intro c hc
      rw [hcatalog] at hc
      rcases List.mem_append.mp hc with hc | hc
      · exact .inl hc
      · obtain rfl := List.mem_singleton.mp hc
        exact .inr (hrowMember ▸ hactive)
    · rw [hcatalog]
      exact List.mem_append_left _ hc
    · rw [hcatalog]
      exact List.mem_append_right _ (List.mem_singleton_self row)
  rcases hlease : w₁.db.callerLease caller with _ | lease
  · simp only [hlease] at h
    exact hhold _ _ _ { w₃ with ticks := w₃.ticks + 1, uuids := w₃.uuids + 1 } hdb h
  · simp only [hlease, Tx.bind_ok (now_run env w₃)] at h
    split at h
    · cases h
    · exact hhold _ _ _ { w₃ with ticks := w₃.ticks + 1 + 1, uuids := w₃.uuids + 1 } hdb h

/-! ## Ownership along steps -/

theorem memberOf_apply {db : Db} {st : Stmt} {identity id : String}
    (hrow : (∀ row, st ≠ .insertMember row) ∨ (db.inventory identity).isSome)
    (h : (st.apply db).MemberOf identity id) : db.MemberOf identity id := by
  obtain ⟨m, hm, hid⟩ := h
  rcases apply_members db st with ⟨f, hf, hmap⟩ | ⟨row, hst, happ⟩
  · rw [Db.inventory, hmap, find?_map hf.identity] at hm
    obtain ⟨m₀, hm₀, rfl⟩ := Option.map_eq_some_iff.mp hm
    exact ⟨m₀, hm₀, (hf.enterpriseId m₀).symm.trans hid⟩
  · obtain ⟨m₀, hm₀⟩ := Option.isSome_iff_exists.mp (hrow.resolve_left fun h => h row hst)
    have happ' : (st.apply db).inventory identity = some m₀ := by
      rw [Db.inventory] at hm₀ ⊢
      rw [happ, List.find?_append, hm₀, Option.some_or]
    obtain rfl := Option.some.inj (hm.symm.trans happ')
    exact ⟨m, hm₀, hid⟩

/-- Only a policy change activates an enterprise. -/
theorem activeEnterprise_apply {db : Db} {st : Stmt} {id : String}
    (hst : ∀ i n s t, st ≠ .setPolicy i n s t) (h : (st.apply db).ActiveEnterprise id) :
    db.ActiveEnterprise id := by
  have hmap : ∃ f : Enterprise → Enterprise, (∀ e, (f e).id = e.id) ∧ (∀ e, (f e).state = e.state)
      ∧ (st.apply db).enterprises = db.enterprises.map f := by
    have hsame : ∀ {db' : Db}, db'.enterprises = db.enterprises →
        ∃ f : Enterprise → Enterprise, (∀ e, (f e).id = e.id) ∧ (∀ e, (f e).state = e.state)
          ∧ db'.enterprises = db.enterprises.map f :=
      fun h => ⟨_, fun _ => rfl, fun _ => rfl, by rw [h]; exact (List.map_id _).symm⟩
    cases st with
    | setPolicy i n s t => exact absurd rfl (hst i n s t)
    | incrementInventory i =>
        exact ⟨_, fun e => by dsimp only; split <;> rfl, fun e => by dsimp only; split <;> rfl, rfl⟩
    | setInventoryCount i n =>
        exact ⟨_, fun e => by dsimp only; split <;> rfl, fun e => by dsimp only; split <;> rfl, rfl⟩
    | writeCredentials identity c now =>
        simp only [Stmt.apply, Db.writeCredentials]
        split
        · split <;> exact hsame rfl
        · exact hsame rfl
    | deleteHold held =>
        simp only [Stmt.apply]
        split <;> exact hsame rfl
    | _ => exact hsame rfl
  obtain ⟨f, hid, hstate, hmap⟩ := hmap
  obtain ⟨e, he, hactive⟩ := h
  rw [Db.enterprise, hmap, find?_map hid] at he
  obtain ⟨e₀, he₀, rfl⟩ := Option.map_eq_some_iff.mp he
  exact ⟨e₀, he₀, (hstate e₀).symm.trans hactive⟩

theorem inActive_of_upkeep {identity : String} (hsteps : Steps env Stmt.Upkeep w w')
    (h : w'.db.InActive identity) : w.db.InActive identity := by
  induction hsteps with
  | refl => exact h
  | tail _ hstep ih =>
      refine ih ?_
      cases hstep with
      | idle _ hdb => exact hdb ▸ h
      | exec st hA _ _ hdb =>
          rw [hdb] at h
          obtain ⟨id, hof, hactive⟩ := h
          refine ⟨id, memberOf_apply (.inl ?_) hof, activeEnterprise_apply ?_ hactive⟩
          · rintro row rfl
            exact hA
          · rintro i n s t rfl
            exact hA

/-- Without inserts every binding row is an old one. -/
theorem admits_of_steps (hl : ∀ row, ¬A (.insertLease row)) (hc : ∀ row, ¬A (.insertCatalogHold row))
    (hsteps : Steps env A w w') :
    (∀ l ∈ w'.db.leases, ∃ l₀ ∈ w.db.leases, l₀.leaseId = l.leaseId ∧ l₀.callerId = l.callerId
      ∧ l₀.memberIdentity = l.memberIdentity)
    ∧ ∀ c ∈ w'.db.catalogHolds, c ∈ w.db.catalogHolds := by
  induction hsteps with
  | refl => exact ⟨fun l hl => ⟨l, hl, rfl, rfl, rfl⟩, fun _ hc => hc⟩
  | tail _ hstep ih =>
      cases hstep with
      | idle _ hdb => exact hdb ▸ ih
      | exec st hA _ _ hdb =>
          rw [hdb]
          refine ⟨fun l hmem => ?_, fun c hmem => ?_⟩
          · rcases mem_leases_apply hmem with ⟨l₁, hl₁, hid, hcaller, hmember⟩ | rfl
            · obtain ⟨l₀, hl₀, hid₀, hcaller₀, hmember₀⟩ := ih.1 l₁ hl₁
              exact ⟨l₀, hl₀, hid₀.trans hid.symm, hcaller₀.trans hcaller.symm, hmember₀.trans hmember.symm⟩
            · exact absurd hA (hl l)
          · rcases mem_catalogHolds_apply hmem with hmem | rfl
            · exact ih.2 c hmem
            · exact absurd hA (hc c)

/-! ## What a sweep spares -/

/-- The sweep at `t` has no reason to touch the lease: it has not expired, and its member, where it is
in service, has a usable credential that was verified. -/
def Db.Sound (db : Db) (t : Nat) (l : LeaseRow) : Prop :=
  t < l.expiresAt ∧ ∀ m, db.inventory l.memberIdentity = some m →
    m.state = .ready ∨ m.state = .cooling →
    db.usable l.memberIdentity = true ∧ m.verifiedAt.isSome

/-- The lease is in the table, and its member's row is still the one the sweep has looked at. -/
structure Spared (l : LeaseRow) (row : Option Inventory) (db : Db) : Prop where
  integrity : db.Integrity
  lease : l ∈ db.leases
  member : db.inventory l.memberIdentity = row

theorem Spared.patched {l : LeaseRow} {m : Option Inventory} {db : Db} (h : Spared l m db)
    {identity : String} (hne : identity ≠ l.memberIdentity) (patch : Patch) (row : Inventory)
    (t t' : Nat) :
    l ∈ (db.patched identity patch row t t').leases
      ∧ (db.patched identity patch row t t').inventory l.memberIdentity = m := by
  have hmember : ∀ f : Inventory → Inventory, (∀ m, (f m).identity = m.identity) →
      (db.mapMember identity f).inventory l.memberIdentity = m := by
    intro f hf
    rw [Db.inventory, Db.mapMember]
    have hkey : ∀ m : Inventory, (if m.identity = identity then f m else m).identity = m.identity :=
      fun m => by split <;> simp [hf]
    rw [find?_map hkey]
    have hrow := h.member
    rw [Db.inventory] at hrow
    rw [hrow]
    cases m with
    | none => rfl
    | some m =>
        have hid : m.identity = l.memberIdentity := by simpa using List.find?_some hrow
        simp [hid, Ne.symm hne]
  unfold Db.patched
  split
  · refine ⟨?_, hmember _ fun _ => rfl⟩
    exact List.mem_map.mpr ⟨l, h.lease, by simp [Ne.symm hne]⟩
  · exact ⟨h.lease, hmember _ fun _ => rfl⟩

theorem Spared.update {l : LeaseRow} {m : Option Inventory} (h : Spared l m w.db)
    {identity : String} (hne : identity ≠ l.memberIdentity) {patch : Patch} (hp : patch.Sweeping)
    {b : Bool} (hrun : update env identity patch none none w = (.ok b, w')) :
    Spared l m w'.db := by
  have hsteps : Steps env Stmt.Upkeep w w' := by
    have hvia : Via (Step env Stmt.Upkeep) w (Pool.update env identity patch none none) w :=
      via_update (fun _ _ => hp) (fun _ => trivial) none none (.refl w)
    rw [Via, hrun] at hvia
    exact hvia
  have hI := hsteps.invariant (P := fun w => w.db.Integrity) (fun _ _ hstep h => hstep.integrity h)
    h.integrity
  rcases update_cases env identity patch none none w with ⟨b', v, hrun', ha, -⟩ | ⟨v, row, hrun', hup⟩
  · obtain rfl := (Prod.mk.inj (hrun.symm.trans hrun')).2
    exact ⟨hI, ha.db ▸ h.lease, ha.db ▸ h.member⟩
  · obtain rfl := (Prod.mk.inj (hrun.symm.trans hrun')).2
    obtain ⟨t, t', hdb⟩ := hup.db
    obtain ⟨hlease, hmember⟩ := h.patched hne patch row t t'
    exact ⟨hI, hdb ▸ hlease, hdb ▸ hmember⟩

/-- A loop of updates of other members. -/
theorem Spared.updates {l : LeaseRow} {m : Option Inventory} (h : Spared l m w.db)
    {ids : List String} (hne : l.memberIdentity ∉ ids) {patch : Patch} (hp : patch.Sweeping)
    (hrun : (ids.forM fun identity => do
      let _ ← Pool.update env identity patch none none) w = (.ok ⟨⟩, w')) : Spared l m w'.db := by
  have hend := Tx.forM_eq_ok (fun ids v => Spared l m v.db ∧ l.memberIdentity ∉ ids)
    (fun identity ids v v' hv hstep => ?_) ⟨h, hne⟩ hrun
  · exact hend.1
  · obtain ⟨b, v₁, hupd, hret⟩ := Tx.bind_eq_ok.mp hstep
    obtain ⟨-, rfl⟩ := by simpa using hret
    obtain ⟨hspared, hmem⟩ := hv
    exact ⟨hspared.update (fun heq => hmem (heq ▸ List.mem_cons_self)) hp hupd,
      fun hin => hmem (List.mem_cons_of_mem _ hin)⟩

/-- The last loop of the sweep deletes expired leases only. -/
theorem lease_reclaimLeases {l : LeaseRow} {expired : List LeaseRow} (hl : l ∈ w.db.leases)
    (hne : ∀ x ∈ expired, x.leaseId ≠ l.leaseId)
    (hrun : expired.forM (reclaimLease env) w = (.ok ⟨⟩, w')) : l ∈ w'.db.leases := by
  have hend := Tx.forM_eq_ok
    (fun rest (v : World) => l ∈ v.db.leases ∧ ∀ x ∈ rest, x.leaseId ≠ l.leaseId)
    (fun x rest v v' hv hstep => ?_) ⟨hl, hne⟩ hrun
  · exact hend.1
  · obtain ⟨hmem, hrest⟩ := hv
    refine ⟨?_, fun y hy => hrest y (List.mem_cons_of_mem _ hy)⟩
    have hx := hrest x List.mem_cons_self
    cases hheld : v.db.hasHolds x.memberIdentity (env.clock v.ticks) with
    | true =>
        simp [reclaimLease, hasHolds, Tx.bind_run, hheld] at hstep
        rw [← hstep]
        exact hmem
    | false =>
        obtain ⟨events, hev⟩ := recordEvent_run env
          { action := "lease_expired", identity := x.memberIdentity,
            caller := x.callerId, leaseId := x.leaseId }
          { v with ticks := v.ticks + 1, db := (Stmt.deleteLease x.leaseId).apply v.db }
        simp [reclaimLease, hasHolds, Tx.bind_run, hheld, hev] at hstep
        rw [← hstep]
        exact List.mem_filter.mpr ⟨hmem, by simpa using Ne.symm hx⟩

/-- The tables after the sweep at `t` has deleted what expired and has ended the cooldowns. -/
def Db.expire (db : Db) (t : Nat) : Db :=
  (Stmt.wakeCooled t).apply ((Stmt.deleteExpiredCooldowns t).apply
    ((Stmt.deleteExpiredCatalogHolds t).apply ((Stmt.deleteExpiredHolds t).apply db)))

theorem expire_integrity (env : Env) (h : w.db.Integrity) :
    (w.db.expire (env.clock w.ticks)).Integrity := by
  have hpast : Past env { w with ticks := w.ticks + 1 } (env.clock w.ticks) :=
    ⟨w.ticks, Nat.lt_succ_self _, rfl⟩
  let w₁ : World := { w with db := (Stmt.deleteExpiredHolds (env.clock w.ticks)).apply w.db }
  have hg₁ : (Stmt.deleteExpiredHolds (env.clock w.ticks)).Guard env w
    { w with ticks := w.ticks + 1 } := hpast
  have h₁ : w₁.db.Integrity := h.apply hg₁
  let w₂ : World := { w with db := (Stmt.deleteExpiredCatalogHolds (env.clock w.ticks)).apply w₁.db }
  have hg₂ : (Stmt.deleteExpiredCatalogHolds (env.clock w.ticks)).Guard env w₁
    { w with ticks := w.ticks + 1 } := hpast
  have h₂ : w₂.db.Integrity := h₁.apply hg₂
  let w₃ : World := { w with db := (Stmt.deleteExpiredCooldowns (env.clock w.ticks)).apply w₂.db }
  have hg₃ : (Stmt.deleteExpiredCooldowns (env.clock w.ticks)).Guard env w₂ w := trivial
  have h₃ : w₃.db.Integrity := h₂.apply hg₃
  have hg₄ : (Stmt.wakeCooled (env.clock w.ticks)).Guard env w₃ w := trivial
  exact h₃.apply hg₄

/-- Waking a member keeps its verification, and only a cooling member wakes. -/
theorem expire_inventory {db : Db} {t : Nat} {identity : String} {m : Inventory}
    (h : (db.expire t).inventory identity = some m) :
    ∃ m₀, db.inventory identity = some m₀ ∧ m.verifiedAt = m₀.verifiedAt
      ∧ (m.state = .ready ∨ m.state = .cooling → m₀.state = .ready ∨ m₀.state = .cooling) := by
  have hkey : ∀ m : Inventory, (if m.state = .cooling ∧ m.cooldownUntil ≤ t then
      { m with state := .ready, cooldownUntil := 0, updatedAt := t } else m).identity = m.identity :=
    fun m => by split <;> rfl
  change ((db.members.map _).find? _) = _ at h
  rw [find?_map hkey] at h
  obtain ⟨m₀, hm₀, rfl⟩ := Option.map_eq_some_iff.mp h
  refine ⟨m₀, hm₀, ?_, ?_⟩
  · split <;> rfl
  · split
    · rename_i hcooling
      exact fun _ => .inr hcooling.1
    · exact id

theorem reclaim_spares {l : LeaseRow} (hI : w.db.Integrity) (hl : l ∈ w.db.leases)
    (hsound : w.db.Sound (env.clock w.ticks) l) (hrun : reclaim env w = (.ok (), w')) :
    l ∈ w'.db.leases := by
  have hrun := Tx.transaction_eq_ok.mp hrun
  rw [Tx.bind_ok (now_run env w), Tx.bind_ok (exec_run _ _), Tx.bind_ok (exec_run _ _),
    Tx.bind_ok (exec_run _ _), Tx.bind_ok (exec_run _ _), Tx.bind_ok (select_run _ _)] at hrun
  obtain ⟨_, v₁, hinvalid, hrun⟩ := Tx.bind_eq_ok.mp hrun
  rw [Tx.bind_ok (select_run _ _)] at hrun
  obtain ⟨_, v₂, hunverified, hrun⟩ := Tx.bind_eq_ok.mp hrun
  rw [Tx.bind_ok (select_run _ _)] at hrun
  have hstart : Spared l ((w.db.expire (env.clock w.ticks)).inventory l.memberIdentity)
      (w.db.expire (env.clock w.ticks)) := ⟨expire_integrity env hI, hl, rfl⟩
  have hvalid : l.memberIdentity ∉ invalidMembers (w.db.expire (env.clock w.ticks)) := by
    intro hmem
    obtain ⟨p, hp, hid⟩ := List.mem_map.mp hmem
    obtain ⟨hp, hstate⟩ := List.mem_filter.mp hp
    have hrow : (w.db.expire (env.clock w.ticks)).inventory p.identity = some p :=
      hstart.integrity.members.find? hp
    rw [hid] at hrow
    obtain ⟨m₀, hm₀, -, hin⟩ := expire_inventory hrow
    simp only [Bool.and_eq_true, Bool.or_eq_true, decide_eq_true_eq, hid] at hstate
    have husable := (hsound.2 m₀ hm₀ (hin hstate.1)).1
    have hinvalid := hstate.2
    have haccounts : (w.db.expire (env.clock w.ticks)).account l.memberIdentity
        = w.db.account l.memberIdentity := rfl
    rw [haccounts] at hinvalid
    unfold Db.usable at husable
    cases haccount : w.db.account l.memberIdentity with
    | none => simp [haccount] at husable
    | some a => simp_all
  have hspared₁ : Spared l _ v₁.db :=
    hstart.updates hvalid ⟨rfl, .inl rfl, rfl, rfl, rfl, rfl⟩ hinvalid
  have hverified : l.memberIdentity ∉ unverifiedMembers v₁.db := by
    intro hmem
    obtain ⟨p, hp, hid⟩ := List.mem_map.mp hmem
    obtain ⟨hp, hstate⟩ := List.mem_filter.mp hp
    have hrow : v₁.db.inventory p.identity = some p := hspared₁.integrity.members.find? hp
    rw [hid, hspared₁.member] at hrow
    obtain ⟨m₀, hm₀, hsame, hin⟩ := expire_inventory hrow
    simp only [Bool.and_eq_true, decide_eq_true_eq] at hstate
    have hsome := (hsound.2 m₀ hm₀ (hin (.inl hstate.1))).2
    rw [← hsame, Option.isNone_iff_eq_none.mp hstate.2] at hsome
    cases hsome
  have hspared₂ : Spared l _ v₂.db :=
    hspared₁.updates hverified ⟨rfl, .inr rfl, rfl, rfl, rfl, rfl⟩ hunverified
  refine lease_reclaimLeases hspared₂.lease ?_ hrun
  intro x hx hid
  obtain ⟨hx, hexpired⟩ := List.mem_filter.mp hx
  obtain rfl := hspared₂.integrity.leaseIds.eq hx hspared₂.lease hid
  simp only [Bool.and_eq_true, decide_eq_true_eq] at hexpired
  exact absurd hsound.1 (Nat.not_lt.mpr hexpired.1)

/-! ## One admission -/

/-- A program that returns a handle has swept and then run an admission body; one that throws has at
most swept. `body v held w'` says that the body, run from `v`, returns the handle in `w'`. -/
def Admission (env : Env) (body : World → HeldLease → World → Prop) (w : World)
    (r : Except StoreError HeldLease × World) : Prop :=
  (∃ held u v, r.1 = .ok held ∧ u.Ahead w ∧ reclaim env u = (.ok (), v) ∧ body v held r.2)
  ∨ ∃ e v, r.1 = .error e ∧ Steps env Stmt.Upkeep w v ∧ r.2.db = v.db

theorem admission_cases (env : Env) (body : StoreM HeldLease) (w : World) :
    Admission env (fun v held w' => body v = (.ok held, w')) w (admission env body w) := by
  rcases hreclaim : reclaim env w with ⟨e | ⟨⟩, v⟩
  · refine .inr ⟨e, w, ?_, .refl, ?_⟩ <;>
      simp [admission, transaction, Tx.transaction, Tx.bind_run, hreclaim, World.rollback]
  have hsteps := reclaim_steps hreclaim
  rcases hbody : body v with ⟨e | held, v'⟩
  · cases hpool : e.isPool with
    | true =>
        refine .inr ⟨e, v, ?_, hsteps, ?_⟩ <;>
          simp [admission, transaction, Tx.transaction, Tx.bind_run, Tx.tryReturn, Tx.rethrow,
            ofExcept, hreclaim, hbody, hpool, World.rollback]
    | false =>
        refine .inr ⟨e, w, ?_, .refl, ?_⟩ <;>
          simp [admission, transaction, Tx.transaction, Tx.bind_run, Tx.tryReturn, hreclaim, hbody,
            hpool, World.rollback]
  · refine .inl ⟨held, w, v, ?_, .refl w, hreclaim, ?_⟩ <;>
      simp [admission, transaction, Tx.transaction, Tx.bind_run, Tx.tryReturn, Tx.rethrow, ofExcept,
        hreclaim, hbody]

/-- What comes before the sweep only reads. -/
theorem Admission.bind {α : Type} {body : World → HeldLease → World → Prop} {m : StoreM α}
    {k : α → StoreM HeldLease} (hm : (m w).2.Ahead w)
    (hk : ∀ a u, m w = (.ok a, u) → Admission env body u (k a u)) :
    Admission env body w ((m >>= k) w) := by
  rw [Tx.bind_run]
  rcases hrun : m w with ⟨e | a, u⟩
  · have ha := ahead_of_run hm hrun
    exact .inr ⟨e, w, rfl, .refl, ha.db⟩
  · have ha := ahead_of_run hm hrun
    rcases hk a u hrun with ⟨held, u', v, hok, hu, hreclaim, hbody⟩ | ⟨e, v, herror, hsteps, hdb⟩
    · exact .inl ⟨held, u', v, hok, ⟨ha.before.trans hu.before, hu.db.trans ha.db⟩, hreclaim, hbody⟩
    · exact .inr ⟨e, v, herror, .head (.idle ha.before ha.db) hsteps, hdb⟩

theorem acquire_cases (env : Env) (caller : String) (aborted : Bool) (requestTimeoutMs : Option Int)
    (w : World) :
    Admission env (fun v held w' => ∃ timeoutMs, acquireBody env caller timeoutMs v = (.ok held, w')) w
      (acquire env caller aborted requestTimeoutMs w) := by
  refine .bind (normalizeCaller_reads caller w) fun _ w₁ _ => ?_
  refine .bind (inferenceHoldTimeoutMs_reads _ _ w₁) fun timeoutMs w₂ _ => ?_
  refine .bind (throwIfAborted_reads aborted w₂) fun _ w₃ _ => ?_
  rcases admission_cases env (acquireBody env caller timeoutMs) w₃ with
    ⟨held, u, v, hok, hu, hreclaim, hbody⟩ | herror
  · exact .inl ⟨held, u, v, hok, hu, hreclaim, timeoutMs, hbody⟩
  · exact .inr herror

theorem acquireCatalog_cases (env : Env) (caller : String) (aborted : Bool) (w : World) :
    Admission env (fun v held w' => acquireCatalogBody env caller v = (.ok held, w')) w
      (acquireCatalog env caller aborted w) := by
  refine .bind (normalizeCaller_reads caller w) fun _ w₁ _ => ?_
  refine .bind (throwIfAborted_reads aborted w₁) fun _ w₂ _ => ?_
  exact admission_cases env _ w₂

/-- The rows of an admission: old ones, and those of members of active enterprises. -/
theorem Admission.admits {body : World → HeldLease → World → Prop} {caller : String}
    {r : Except StoreError HeldLease × World} (hI : w.db.Integrity)
    (hbody : ∀ v held w', v.db.Integrity → body v held w' → Admitted caller held v w')
    (h : Admission env body w r) : Admits w.db r.2.db := by
  have hold : ∀ v, Steps env Stmt.Upkeep w v →
      (∀ l ∈ v.db.leases, ∃ l₀ ∈ w.db.leases, l₀.leaseId = l.leaseId ∧ l₀.callerId = l.callerId
        ∧ l₀.memberIdentity = l.memberIdentity)
      ∧ ∀ c ∈ v.db.catalogHolds, c ∈ w.db.catalogHolds :=
    fun v hsteps => admits_of_steps (fun _ h => h) (fun _ h => h) hsteps
  rcases h with ⟨held, u, v, -, hu, hreclaim, hrun⟩ | ⟨e, v, -, hsteps, hdb⟩
  · have hsteps : Steps env Stmt.Upkeep w v := .head (.idle hu.before hu.db) (reclaim_steps hreclaim)
    have hIv : v.db.Integrity := hsteps.invariant (fun _ _ hstep h => hstep.integrity h) hI
    have hadm := (hbody v held r.2 hIv hrun).admits
    refine ⟨fun l hl => ?_, fun c hc => ?_⟩
    · rcases hadm.leases l hl with ⟨l₁, hl₁, hid, hcaller, hmember⟩ | hactive
      · obtain ⟨l₀, hl₀, hid₀, hcaller₀, hmember₀⟩ := (hold v hsteps).1 l₁ hl₁
        exact .inl ⟨l₀, hl₀, hid₀.trans hid, hcaller₀.trans hcaller, hmember₀.trans hmember⟩
      · exact .inr (inActive_of_upkeep hsteps hactive)
    · rcases hadm.catalogHolds c hc with hc | hactive
      · exact .inl ((hold v hsteps).2 c hc)
      · exact .inr (inActive_of_upkeep hsteps hactive)
  · obtain ⟨hleases, hcatalog⟩ := hold v hsteps
    exact ⟨fun l hl => .inl (hleases l (hdb ▸ hl)), fun c hc => .inl (hcatalog c (hdb ▸ hc))⟩

theorem step_admits (hI : w.db.Integrity) (op : Op) : Admits w.db (step env w op).db := by
  by_cases hacquire : ∃ caller aborted timeoutMs, op = .acquire caller aborted timeoutMs
  · obtain ⟨caller, aborted, timeoutMs, rfl⟩ := hacquire
    have h := (acquire_cases env caller aborted timeoutMs w).admits hI
      fun v held w' hIv hrun => acquireBody_admitted hIv hrun.choose_spec
    rwa [step, Op.exec, reply_run]
  by_cases hcatalog : ∃ caller aborted, op = .acquireCatalog caller aborted
  · obtain ⟨caller, aborted, rfl⟩ := hcatalog
    have h := (acquireCatalog_cases env caller aborted w).admits hI
      fun v held w' hIv hrun => acquireCatalogBody_admitted hIv hrun
    rwa [step, Op.exec, reply_run]
  obtain ⟨hleases, hholds⟩ := admits_of_steps (A := op.permits)
    (fun row h => hacquire ⟨_, h⟩) (fun row h => hcatalog ⟨_, h⟩) (steps_of_step env w op)
  exact ⟨fun l hl => .inl (hleases l hl), fun c hc => .inl (hholds c hc)⟩

/-! ## Runs -/

theorem memberOf_steps {identity id : String} (hsteps : Steps env A w w')
    (hrow : (w.db.inventory identity).isSome) (h : w'.db.MemberOf identity id) :
    w.db.MemberOf identity id := by
  have hback : (w'.db.inventory identity).isSome ∧
      (w'.db.MemberOf identity id → w.db.MemberOf identity id) := by
    clear h
    induction hsteps with
    | refl => exact ⟨hrow, fun h => h⟩
    | tail _ hstep ih =>
        cases hstep with
        | idle _ hdb => exact hdb ▸ ih
        | exec st _ _ _ hdb =>
            rw [hdb]
            exact ⟨inventory_isSome_apply st ih.1, fun h => ih.2 (memberOf_apply (.inr ih.1) h)⟩
  exact hback.2 h

/-- Every binding of a member of the enterprise is one that the tables had before. -/
structure OldBindings (id : String) (db db' : Db) : Prop where
  leases : ∀ l ∈ db'.leases, db'.MemberOf l.memberIdentity id → ∃ l₀ ∈ db.leases,
    l₀.leaseId = l.leaseId ∧ l₀.callerId = l.callerId ∧ l₀.memberIdentity = l.memberIdentity
  catalogHolds : ∀ c ∈ db'.catalogHolds, db'.MemberOf c.memberIdentity id → c ∈ db.catalogHolds

theorem oldBindings_step {id : String} {db : Db} (hI : w.db.Integrity) (h : OldBindings id db w.db)
    (hdrain : ¬w.db.ActiveEnterprise id) (op : Op) : OldBindings id db (step env w op).db := by
  have hadm : Admits w.db (step env w op).db := step_admits hI op
  have hsteps := steps_of_step env w op
  -- a new row's member would belong to an active enterprise
  have hnew : ∀ identity, w.db.InActive identity →
      ¬(step env w op).db.MemberOf identity id := by
    rintro identity ⟨_, ⟨m, hm, rfl⟩, hactive⟩ hof
    obtain ⟨m', hm', hid⟩ := memberOf_steps hsteps (Option.isSome_iff_exists.mpr ⟨m, hm⟩) hof
    obtain rfl := Option.some.inj (hm.symm.trans hm')
    exact hdrain (hid ▸ hactive)
  refine ⟨fun l hl hof => ?_, fun c hc hof => ?_⟩
  · rcases hadm.leases l hl with ⟨l₁, hl₁, hid, hcaller, hmember⟩ | hactive
    · have hof₁ := memberOf_steps hsteps (hmember ▸ hI.leaseMember l₁ hl₁) hof
      obtain ⟨l₀, hl₀, hid₀, hcaller₀, hmember₀⟩ := h.leases l₁ hl₁ (hmember ▸ hof₁)
      exact ⟨l₀, hl₀, hid₀.trans hid, hcaller₀.trans hcaller, hmember₀.trans hmember⟩
    · exact absurd hof (hnew _ hactive)
  · rcases hadm.catalogHolds c hc with hc₁ | hactive
    · exact h.catalogHolds c hc₁ (memberOf_steps hsteps (hI.catalogMember c hc₁) hof)
    · exact absurd hof (hnew _ hactive)

theorem run_oldBindings {id : String} (hI : w.db.Exclusive) (ops : List Op)
    (hdrain : ∀ before, before <+: ops → ¬(run env w before).db.ActiveEnterprise id) :
    OldBindings id w.db (run env w ops).db := by
  induction ops using List.reverseRecOn with
  | nil => exact ⟨fun l hl _ => ⟨l, hl, rfl, rfl, rfl⟩, fun _ hc _ => hc⟩
  | append_singleton ops op ih =>
      have hrun : run env w (ops ++ [op]) = step env (run env w ops) op := run_append env w ops [op]
      rw [hrun]
      have hprefix : ops <+: ops ++ [op] := List.prefix_append ops [op]
      exact oldBindings_step (run_exclusive env hI ops).toIntegrity
        (ih fun before hb => hdrain before (hb.trans hprefix)) (hdrain ops hprefix) op

/-! ## Bound callers -/

/-- Why the sweep of an admission may drop a lease: at its reading the lease has expired or its member
is about to fail, and no live hold pins the member. -/
def Droppable (env : Env) (w w' : World) (l : LeaseRow) : Prop :=
  (∃ t, Reading env w w' t ∧ ¬w.db.Sound t l)
    ∧ ∃ t, Reading env w w' t ∧ w.db.hasHolds l.memberIdentity t = false

theorem catalogHold_of_upkeep {c : CatalogHold} (hc : c ∈ w.db.catalogHolds)
    (hsteps : Steps env Stmt.Upkeep w w') :
    c ∈ w'.db.catalogHolds ∨ ∃ t, Past env w' t ∧ c.expiresAt ≤ t := by
  induction hsteps with
  | refl => exact .inl hc
  | tail _ hstep ih =>
      rcases ih with hmem | ⟨t, ht, hle⟩
      · cases hstep with
        | idle _ hdb => exact .inl (hdb ▸ hmem)
        | exec st hA _ hg hdb =>
            rw [hdb]
            cases st with
            | deleteExpiredCatalogHolds t =>
                by_cases hlive : t < c.expiresAt
                · exact .inl (List.mem_filter.mpr ⟨hmem, by simpa using hlive⟩)
                · exact .inr ⟨t, hg, Nat.not_lt.mp hlive⟩
            | deleteExpiredHolds | deleteExpiredCooldowns | wakeCooled | clampLease | deleteLease
            | insertEvent | trimEvents | updateMember => exact .inl hmem
            | _ => exact hA.elim
      · exact .inr ⟨t, ht.mono hstep.before, hle⟩

/-- A caller that an admission has answered keeps its member, unless the sweep dropped the binding. -/
theorem Admission.keeps (op : Op) {body : World → HeldLease → World → Prop} {caller : String}
    {held : HeldLease} (hI : w.db.Exclusive) (hI' : w'.db.Exclusive)
    (hspares : ∀ held, ¬op.permits (.deleteHold held)) (hcompleted : op.completed w.db = w.db)
    (hbody : ∀ v held w', v.db.Integrity → body v held w' → Admitted caller held v w')
    (h : Admission env body w (.ok held, w')) :
    (∀ l ∈ w.db.leases, l.callerId = caller →
      held.memberIdentity = l.memberIdentity ∨ Droppable env w w' l)
    ∧ ∀ c ∈ w.db.catalogHolds, c.callerId = caller →
      held.memberIdentity = c.memberIdentity ∨ ∃ t, Past env w' t ∧ c.expiresAt ≤ t := by
  rcases h with ⟨held', u, v, hok, hu, hreclaim, hrun⟩ | ⟨_, _, herror, -⟩
  swap
  · cases herror
  obtain rfl := Except.ok.inj hok
  have hsweep := reclaim_steps hreclaim
  have hsteps : Steps env Stmt.Upkeep w v := .head (.idle hu.before hu.db) hsweep
  have hIv : v.db.Integrity :=
    hsteps.invariant (fun _ _ hstep h => hstep.integrity h) hI.toIntegrity
  have hadm := hbody v held w' hIv hrun
  refine ⟨fun l hl hcaller => ?_, fun c hc hcaller => ?_⟩
  · by_cases hkept : ∃ l' ∈ v.db.leases, l'.leaseId = l.leaseId
    · obtain ⟨l', hl', hid⟩ := hkept
      obtain ⟨l₀, hl₀, hid₀, hcaller₀, hmember₀⟩ :=
        (admits_of_steps (fun _ h => h) (fun _ h => h) hsteps).1 l' hl'
      obtain rfl := hI.leaseIds.eq hl₀ hl (hid₀.trans hid)
      have hbound : w'.db.Bound caller l₀.memberIdentity :=
        .inl ⟨l', hadm.leases l' hl', hcaller₀.symm.trans hcaller, hmember₀.symm⟩
      exact .inl (hI'.bound.2 hadm.bound hbound)
    · have hgone : ∀ l' ∈ v.db.leases, l'.leaseId ≠ l.leaseId := fun l' hl' hid =>
        hkept ⟨l', hl', hid⟩
      have hIu : u.db.Integrity := hu.db ▸ hI.toIntegrity
      have hlu : l ∈ u.db.leases := hu.db ▸ hl
      obtain ⟨t, ht, hnone⟩ := unheld_of_deleted hIu hlu (fun held h => absurd h (hspares held))
        (hsweep.mono fun st hst => op.permits_upkeep hst) hgone
      rw [hu.db, hcompleted] at hnone
      -- the sweep's own reading comes before the one of the deletion
      obtain ⟨n, hlo, hhi, -⟩ := id ht
      have hfirst : Reading env u v (env.clock u.ticks) :=
        ⟨u.ticks, Nat.le_refl _, Nat.lt_of_le_of_lt hlo hhi, rfl⟩
      refine .inr ⟨⟨_, hfirst.widen hu.before hadm.before, fun hsound => ?_⟩, t,
        ht.widen hu.before hadm.before, hnone⟩
      rw [← hu.db] at hsound
      exact hkept ⟨l, reclaim_spares hIu hlu hsound hreclaim, rfl⟩
  · rcases catalogHold_of_upkeep hc hsteps with hkept | ⟨t, ht, hle⟩
    · have hbound : w'.db.Bound caller c.memberIdentity :=
        .inr ⟨c, hadm.catalogHolds c hkept, hcaller, rfl⟩
      exact .inl (hI'.bound.2 hadm.bound hbound)
    · exact .inr ⟨t, ht.mono hadm.before, hle⟩

/-! ## The result -/

/-- The two operations that bind a caller. -/
def Op.Admits (caller : String) (op : Op) : Prop :=
  (∃ aborted timeoutMs, op = .acquire caller aborted timeoutMs)
    ∨ ∃ aborted, op = .acquireCatalog caller aborted

theorem reply_ok {α : Type} {m : StoreM α} {f : α → Reply} {r : Reply}
    (h : (do
      let a ← m
      pure (f a)) w = (.ok r, w')) : ∃ a, m w = (.ok a, w') ∧ f a = r := by
  obtain ⟨a, v, hm, h⟩ := Tx.bind_eq_ok.mp h
  obtain ⟨hreply, rfl⟩ := Prod.mk.inj h
  exact ⟨a, hm, Except.ok.inj hreply⟩

theorem admits_keeps {op : Op} {caller : String} {held : HeldLease} (hI : w.db.Exclusive)
    (hop : op.Admits caller) (hrun : op.exec env w = (.ok (.held held), w')) :
    (∀ l ∈ w.db.leases, l.callerId = caller →
      held.memberIdentity = l.memberIdentity ∨ Droppable env w w' l)
    ∧ ∀ c ∈ w.db.catalogHolds, c.callerId = caller →
      held.memberIdentity = c.memberIdentity ∨ ∃ t, Past env w' t ∧ c.expiresAt ≤ t := by
  have hI' : w'.db.Exclusive := by
    have h := (steps_of_step env w op).invariant (P := fun w => w.db.Exclusive)
      (fun _ _ hstep h => hstep.exclusive h) hI
    rwa [step, hrun] at h
  rcases hop with ⟨aborted, timeoutMs, rfl⟩ | ⟨aborted, rfl⟩
  · obtain ⟨held', hacquire, heq⟩ := reply_ok hrun
    cases heq
    have hadm := acquire_cases env caller aborted timeoutMs w
    rw [hacquire] at hadm
    exact hadm.keeps (.acquire caller aborted timeoutMs) hI hI' (by rintro _ ⟨_, ⟨⟩⟩) rfl
      fun v held w' hIv hrun => acquireBody_admitted hIv hrun.choose_spec
  · obtain ⟨held', hacquire, heq⟩ := reply_ok hrun
    cases heq
    have hadm := acquireCatalog_cases env caller aborted w
    rw [hacquire] at hadm
    exact hadm.keeps (.acquireCatalog caller aborted) hI hI' (by rintro _ ⟨_, ⟨⟩⟩) rfl
      fun v held w' hIv hrun => acquireCatalogBody_admitted hIv hrun

/-- From any state of any run: while an enterprise is not active, its members get no lease row and no
catalog hold that was not there before; and an admission that answers a bound caller has kept its
member, unless a catalog hold had expired or the sweep could drop the lease. -/
theorem draining (env : Env) (w : World) (hw : w.db.Initial) (ops : List Op) :
    (∀ id rest, (∀ before, before <+: rest →
        ¬(run env (run env w ops) before).db.ActiveEnterprise id) →
      OldBindings id (run env w ops).db (run env (run env w ops) rest).db)
    ∧ ∀ (caller : String) (op : Op) (held : HeldLease) (w' : World), op.Admits caller →
      op.exec env (run env w ops) = (.ok (.held held), w') →
      (∀ l ∈ (run env w ops).db.leases, l.callerId = caller →
        held.memberIdentity = l.memberIdentity ∨ Droppable env (run env w ops) w' l)
      ∧ ∀ c ∈ (run env w ops).db.catalogHolds, c.callerId = caller →
        held.memberIdentity = c.memberIdentity ∨ ∃ t, Past env w' t ∧ c.expiresAt ≤ t := by
  have hex := run_exclusive env hw.exclusive ops
  refine ⟨fun id rest hdrain => run_oldBindings hex rest hdrain, ?_⟩
  intro caller op held w' hop hrun
  exact admits_keeps hex hop hrun

namespace Sample

/-- Two active enterprises, each with one ready member. -/
def twoEnterprises : World := { world with db := { db with
  enterprises := db.enterprises.map (fun e => { e with inventoryCount := 1 }) ++ [
    { id := "zeta", state := .active, maxAccounts := 10, inventoryCount := 1, policyVersion := 1
      profileFingerprint := "", createdAt := 0, updatedAt := 0 }]
  members := [member "aaa.a00" 0, { member "aab.a00" 1 with enterpriseId := "zeta" }] } }

/-- A millisecond clock that stands still for a thousand readings. -/
def steadyEnv : Env := { Sample.env with
  clock := fun n => 1000000 + n / 1000
  clock_mono := fun m n h => by dsimp only; omega }

/-- The handle of the first admission. -/
def firstHeld : HeldLease :=
  { callerId := caller, memberIdentity := "aaa.a00", enterpriseId := "main", leaseId := steadyEnv.uuid 0
    phase := .provisional, assignedAt := 1000000, lastSuccessAt := none
    expiresAt := 1060000, requestId := steadyEnv.uuid 1, kind := .lease
    deadlineAt := 1060000 }

/-- A caller leases a member and renews the lease, and the enterprise drains. -/
def drain : List Op :=
  [.acquire caller false none, .finish firstHeld true,
   .updateEnterprisePolicy "main" 1 { state := some (some .draining) }]

/-- The leased member's token is revoked while nothing runs on it. -/
def revoke : Op := .external (.credentials "aaa.a00"
  { (account "aaa.a00").credentials with token := none, status := .expired })

/-- The lease after its renewal. -/
def renewedLease : LeaseRow :=
  { callerId := caller, memberIdentity := "aaa.a00", leaseId := steadyEnv.uuid 0, phase := .active
    assignedAt := 1000000, lastSuccessAt := some 1000000, expiresAt := 4600000 }

/-- The handle the caller gets after the token is revoked. -/
def movedHeld : HeldLease :=
  { callerId := caller, memberIdentity := "aab.a00", enterpriseId := "zeta"
    leaseId := steadyEnv.uuid 2, phase := .provisional, assignedAt := 1000000, lastSuccessAt := none
    expiresAt := 1060000, requestId := steadyEnv.uuid 3, kind := .lease, deadlineAt := 1060000 }

end Sample

theorem twoEnterprises_initial : Sample.twoEnterprises.db.Initial where
  members := by decide
  ordinals := by decide
  accounts := by decide
  enterprises := by decide
  leaseIds := .nil
  leaseCallers := .nil
  leaseMembers := .nil
  memberAccount := by decide
  memberEnterprise := by decide
  leaseMember := nofun
  holdLease := nofun
  catalogMember := nofun
  leases := rfl
  holds := rfl
  catalogHolds := rfl

theorem draining_sample :
    (∀ id rest, (∀ before, before <+: rest →
        ¬(run Sample.steadyEnv (run Sample.steadyEnv Sample.twoEnterprises Sample.drain)
          before).db.ActiveEnterprise id) →
      OldBindings id (run Sample.steadyEnv Sample.twoEnterprises Sample.drain).db
        (run Sample.steadyEnv (run Sample.steadyEnv Sample.twoEnterprises Sample.drain) rest).db)
    ∧ ∀ (caller : String) (op : Op) (held : HeldLease) (w' : World), op.Admits caller →
      op.exec Sample.steadyEnv (run Sample.steadyEnv Sample.twoEnterprises Sample.drain)
        = (.ok (.held held), w') →
      (∀ l ∈ (run Sample.steadyEnv Sample.twoEnterprises Sample.drain).db.leases,
        l.callerId = caller → held.memberIdentity = l.memberIdentity
          ∨ Droppable Sample.steadyEnv (run Sample.steadyEnv Sample.twoEnterprises Sample.drain) w' l)
      ∧ ∀ c ∈ (run Sample.steadyEnv Sample.twoEnterprises Sample.drain).db.catalogHolds,
        c.callerId = caller → held.memberIdentity = c.memberIdentity
          ∨ ∃ t, Past Sample.steadyEnv w' t ∧ c.expiresAt ≤ t :=
  draining Sample.steadyEnv Sample.twoEnterprises twoEnterprises_initial Sample.drain

/-- A caller with an unexpired lease on a member of a draining enterprise moves to another enterprise
in the admission whose sweep finds the member's token revoked. -/
theorem draining_revoked : ∃ v,
    v = run Sample.steadyEnv Sample.twoEnterprises (Sample.drain ++ [Sample.revoke])
    ∧ Sample.renewedLease ∈ v.db.leases ∧ Sample.renewedLease.callerId = Sample.caller
    ∧ v.db.MemberOf Sample.renewedLease.memberIdentity "main" ∧ ¬v.db.ActiveEnterprise "main"
    ∧ ((Op.acquire Sample.caller false none).exec Sample.steadyEnv v).1 = .ok (.held Sample.movedHeld)
    ∧ Sample.steadyEnv.clock (step Sample.steadyEnv v (.acquire Sample.caller false none)).ticks
      < Sample.renewedLease.expiresAt
    ∧ Sample.movedHeld.memberIdentity ≠ Sample.renewedLease.memberIdentity
    ∧ Sample.movedHeld.enterpriseId ≠ "main" := by
  obtain ⟨hlease, hmember, hdraining, hmoved⟩ :
      Sample.renewedLease ∈ (run Sample.steadyEnv Sample.twoEnterprises (Sample.drain ++ [Sample.revoke])).db.leases
        ∧ ((run Sample.steadyEnv Sample.twoEnterprises
          (Sample.drain ++ [Sample.revoke])).db.inventory "aaa.a00").map (·.enterpriseId) = some "main"
        ∧ ((run Sample.steadyEnv Sample.twoEnterprises
          (Sample.drain ++ [Sample.revoke])).db.enterprise "main").map (·.state) = some .draining
        ∧ ((Op.acquire Sample.caller false none).exec Sample.steadyEnv
          (run Sample.steadyEnv Sample.twoEnterprises (Sample.drain ++ [Sample.revoke]))).1
            = .ok (.held Sample.movedHeld)
        ∧ Sample.steadyEnv.clock (step Sample.steadyEnv
          (run Sample.steadyEnv Sample.twoEnterprises (Sample.drain ++ [Sample.revoke]))
            (.acquire Sample.caller false none)).ticks < Sample.renewedLease.expiresAt
        ∧ Sample.movedHeld.memberIdentity ≠ Sample.renewedLease.memberIdentity
        ∧ Sample.movedHeld.enterpriseId ≠ "main" := by
    decide +kernel
  refine ⟨_, rfl, hlease, rfl, Option.map_eq_some_iff.mp hmember, ?_, hmoved⟩
  rintro ⟨e, he, hactive⟩
  rw [he, Option.map_some, hactive] at hdraining
  cases hdraining

end GhcpConsole.Pool
