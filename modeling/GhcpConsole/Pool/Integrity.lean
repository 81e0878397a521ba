import GhcpConsole.Lib.Table
import GhcpConsole.Pool.Effects

/-!
# Integrity of the tables

What a statement does to one table is an in-place rewrite, a deletion or an insertion; the
`apply_...` lemmas say which, keeping the keys. From them, with the guards, follow the schema's
constraints along every chain of steps: unique keys and foreign keys.
-/

namespace GhcpConsole.Pool

/-- The unique and foreign keys of the schema. -/
structure Db.Integrity (db : Db) : Prop where
  members : Keyed (·.identity) db.members
  ordinals : Keyed (·.ordinal) db.members
  accounts : Keyed (·.identity) db.accounts
  enterprises : Keyed (·.id) db.enterprises
  leaseIds : Keyed (·.leaseId) db.leases
  leaseCallers : Keyed (·.callerId) db.leases
  leaseMembers : Keyed (·.memberIdentity) db.leases
  memberAccount : ∀ m ∈ db.members, (db.account m.identity).isSome
  memberEnterprise : ∀ m ∈ db.members, (db.enterprise m.enterpriseId).isSome
  leaseMember : ∀ l ∈ db.leases, (db.inventory l.memberIdentity).isSome
  holdLease : ∀ h ∈ db.holds, ∃ l ∈ db.leases, l.leaseId = h.leaseId
  catalogMember : ∀ h ∈ db.catalogHolds, (db.inventory h.memberIdentity).isSome

/-! ## Table by table -/

/-- A rewrite of a member row that keeps what other tables refer to. -/
structure KeepsMember (f : Inventory → Inventory) : Prop where
  identity : ∀ m, (f m).identity = m.identity
  ordinal : ∀ m, (f m).ordinal = m.ordinal
  enterpriseId : ∀ m, (f m).enterpriseId = m.enterpriseId

/-- A rewrite of a lease row that keeps its keys. -/
structure KeepsLease (f : LeaseRow → LeaseRow) : Prop where
  leaseId : ∀ l, (f l).leaseId = l.leaseId
  callerId : ∀ l, (f l).callerId = l.callerId
  memberIdentity : ∀ l, (f l).memberIdentity = l.memberIdentity

theorem KeepsMember.id : KeepsMember id := ⟨fun _ => rfl, fun _ => rfl, fun _ => rfl⟩

theorem KeepsLease.id : KeepsLease id := ⟨fun _ => rfl, fun _ => rfl, fun _ => rfl⟩

theorem KeepsMember.ite {f : Inventory → Inventory} (hf : KeepsMember f)
    (p : Inventory → Prop) [DecidablePred p] : KeepsMember fun m => if p m then f m else m :=
  ⟨fun m => by split <;> simp [hf.identity],
    fun m => by split <;> simp [hf.ordinal],
    fun m => by split <;> simp [hf.enterpriseId]⟩

theorem KeepsLease.ite {f : LeaseRow → LeaseRow} (hf : KeepsLease f)
    (p : LeaseRow → Prop) [DecidablePred p] : KeepsLease fun l => if p l then f l else l :=
  ⟨fun l => by split <;> simp [hf.leaseId],
    fun l => by split <;> simp [hf.callerId],
    fun l => by split <;> simp [hf.memberIdentity]⟩

theorem apply_members (db : Db) (st : Stmt) :
    (∃ f, KeepsMember f ∧ (st.apply db).members = db.members.map f)
    ∨ ∃ row, st = .insertMember row ∧ (st.apply db).members = db.members ++ [row] := by
  have hsame : ∀ {db' : Db}, db'.members = db.members →
      ∃ f, KeepsMember f ∧ db'.members = db.members.map f :=
    fun h => ⟨_, .id, by rw [h, List.map_id]⟩
  have hmap : ∀ {f : Inventory → Inventory} {p : Inventory → Prop} [DecidablePred p] {db' : Db},
      (db'.members = db.members.map fun m => if p m then f m else m) → KeepsMember f →
      ∃ f, KeepsMember f ∧ db'.members = db.members.map f :=
    fun h hf => ⟨_, hf.ite _, h⟩
  cases st with
  | insertMember row => exact .inr ⟨row, rfl, rfl⟩
  | wakeCooled now => exact .inl (hmap rfl ⟨fun _ => rfl, fun _ => rfl, fun _ => rfl⟩)
  | updateMember identity patch now invalidating =>
      exact .inl (hmap rfl ⟨fun _ => rfl, fun _ => rfl, fun _ => rfl⟩)
  | setReauth identity count windowAt =>
      exact .inl (hmap rfl ⟨fun _ => rfl, fun _ => rfl, fun _ => rfl⟩)
  | releaseReservation identity stage =>
      exact .inl (hmap rfl ⟨fun _ => rfl, fun _ => rfl, fun _ => rfl⟩)
  | retryMember identity attemptId stage now =>
      exact .inl (hmap rfl ⟨fun _ => rfl, fun _ => rfl, fun _ => rfl⟩)
  | writeCredentials identity c now =>
      left
      simp only [Stmt.apply, Db.writeCredentials]
      split
      · split
        · exact hsame rfl
        · exact hmap rfl ⟨fun _ => rfl, fun _ => rfl, fun _ => rfl⟩
      · exact hsame rfl
  | deleteHold held =>
      left
      simp only [Stmt.apply]
      split <;> exact hsame rfl
  | _ => exact .inl (hsame rfl)

theorem apply_leases (db : Db) (st : Stmt) :
    (∃ f, KeepsLease f ∧ (st.apply db).leases = db.leases.map f)
    ∨ (∃ p, st.apply db = db.deleteLeases p
        ∧ ((∃ id, st = .deleteLease id) ∨ ∃ identity, st = .deleteLeaseOf identity))
    ∨ ∃ row, st = .insertLease row ∧ (st.apply db).leases = db.leases ++ [row] := by
  have hsame : ∀ {db' : Db}, db'.leases = db.leases →
      ∃ f, KeepsLease f ∧ db'.leases = db.leases.map f :=
    fun h => ⟨_, .id, by rw [h, List.map_id]⟩
  have hmap : ∀ {f : LeaseRow → LeaseRow} {p : LeaseRow → Prop} [DecidablePred p] {db' : Db},
      (db'.leases = db.leases.map fun l => if p l then f l else l) → KeepsLease f →
      ∃ f, KeepsLease f ∧ db'.leases = db.leases.map f :=
    fun h hf => ⟨_, hf.ite _, h⟩
  cases st with
  | insertLease row => exact .inr (.inr ⟨row, rfl, rfl⟩)
  | clampLease identity now =>
      exact .inl (hmap rfl ⟨fun _ => rfl, fun _ => rfl, fun _ => rfl⟩)
  | renewLease held now expiresAt =>
      exact .inl (hmap rfl ⟨fun _ => rfl, fun _ => rfl, fun _ => rfl⟩)
  | deleteLease leaseId => exact .inr (.inl ⟨_, rfl, .inl ⟨_, rfl⟩⟩)
  | deleteLeaseOf identity => exact .inr (.inl ⟨_, rfl, .inr ⟨_, rfl⟩⟩)
  | writeCredentials identity c now =>
      left
      simp only [Stmt.apply, Db.writeCredentials]
      split
      · split <;> exact hsame rfl
      · exact hsame rfl
  | deleteHold held =>
      left
      simp only [Stmt.apply]
      split <;> exact hsame rfl
  | _ => exact .inl (hsame rfl)

theorem apply_holds (db : Db) (st : Stmt) :
    (∃ p, (st.apply db).holds = db.holds.filter p)
    ∨ ∃ row, st = .insertHold row ∧ (st.apply db).holds = db.holds ++ [row] := by
  have hsame : ∀ {db' : Db}, db'.holds = db.holds → ∃ p, db'.holds = db.holds.filter p :=
    fun h => ⟨fun _ => true, by rw [h, List.filter_true]⟩
  cases st with
  | insertHold row => exact .inr ⟨row, rfl, rfl⟩
  | deleteExpiredHolds now => exact .inl ⟨_, rfl⟩
  | deleteLease leaseId => exact .inl ⟨_, rfl⟩
  | deleteLeaseOf identity => exact .inl ⟨_, rfl⟩
  | writeCredentials identity c now =>
      left
      simp only [Stmt.apply, Db.writeCredentials]
      split
      · split <;> exact hsame rfl
      · exact hsame rfl
  | deleteHold held =>
      left
      simp only [Stmt.apply]
      split
      · exact ⟨_, rfl⟩
      · exact hsame rfl
  | _ => exact .inl (hsame rfl)

theorem apply_catalogHolds (db : Db) (st : Stmt) :
    (∃ p, (st.apply db).catalogHolds = db.catalogHolds.filter p)
    ∨ ∃ row, st = .insertCatalogHold row
      ∧ (st.apply db).catalogHolds = db.catalogHolds ++ [row] := by
  have hsame : ∀ {db' : Db}, db'.catalogHolds = db.catalogHolds →
      ∃ p, db'.catalogHolds = db.catalogHolds.filter p :=
    fun h => ⟨fun _ => true, by rw [h, List.filter_true]⟩
  cases st with
  | insertCatalogHold row => exact .inr ⟨row, rfl, rfl⟩
  | deleteExpiredCatalogHolds now => exact .inl ⟨_, rfl⟩
  | writeCredentials identity c now =>
      left
      simp only [Stmt.apply, Db.writeCredentials]
      split
      · split <;> exact hsame rfl
      · exact hsame rfl
  | deleteHold held =>
      left
      simp only [Stmt.apply]
      split
      · exact hsame rfl
      · exact ⟨_, rfl⟩
  | _ => exact .inl (hsame rfl)

theorem apply_accounts (db : Db) (st : Stmt) :
    (∃ f : ProxyAccount → ProxyAccount, (∀ a, (f a).identity = a.identity)
      ∧ (st.apply db).accounts = db.accounts.map f)
    ∨ (∃ row, st = .insertAccount row ∧ (st.apply db).accounts = db.accounts ++ [row])
    ∨ ∃ identity, st = .deleteAccount identity
      ∧ (st.apply db).accounts = db.accounts.filter fun a => a.identity ≠ identity := by
  have hsame : ∀ {db' : Db}, db'.accounts = db.accounts →
      ∃ f : ProxyAccount → ProxyAccount, (∀ a, (f a).identity = a.identity)
        ∧ db'.accounts = db.accounts.map f :=
    fun h => ⟨_, fun _ => rfl, by rw [h]; exact (List.map_id _).symm⟩
  cases st with
  | insertAccount row => exact .inr (.inl ⟨row, rfl, rfl⟩)
  | deleteAccount identity => exact .inr (.inr ⟨identity, rfl, rfl⟩)
  | writeCredentials identity c now =>
      refine .inl ⟨fun a => if a.identity = identity then
        { a with credentials := c, updatedAt := now } else a, fun a => by dsimp only; split <;> rfl, ?_⟩
      simp only [Stmt.apply, Db.writeCredentials]
      split
      · split <;> rfl
      · rfl
  | deleteHold held =>
      left
      simp only [Stmt.apply]
      split <;> exact hsame rfl
  | _ => exact .inl (hsame rfl)

theorem apply_enterprises (db : Db) (st : Stmt) :
    ∃ f : Enterprise → Enterprise, (∀ e, (f e).id = e.id)
      ∧ (st.apply db).enterprises = db.enterprises.map f := by
  have hsame : ∀ {db' : Db}, db'.enterprises = db.enterprises →
      ∃ f : Enterprise → Enterprise, (∀ e, (f e).id = e.id)
        ∧ db'.enterprises = db.enterprises.map f :=
    fun h => ⟨_, fun _ => rfl, by rw [h]; exact (List.map_id _).symm⟩
  cases st with
  | incrementInventory id => exact ⟨_, fun e => by dsimp only; split <;> rfl, rfl⟩
  | setInventoryCount id n => exact ⟨_, fun e => by dsimp only; split <;> rfl, rfl⟩
  | setPolicy id m s t => exact ⟨_, fun e => by dsimp only; split <;> rfl, rfl⟩
  | writeCredentials identity c now =>
      simp only [Stmt.apply, Db.writeCredentials]
      split
      · split <;> exact hsame rfl
      · exact hsame rfl
  | deleteHold held =>
      simp only [Stmt.apply]
      split <;> exact hsame rfl
  | _ => exact hsame rfl

/-! ## Foreign keys -/

theorem inventory_isSome_apply {db : Db} {identity : String} (st : Stmt)
    (h : (db.inventory identity).isSome) : ((st.apply db).inventory identity).isSome := by
  obtain ⟨m, hm, hid⟩ := find?_key_isSome.mp h
  refine find?_key_isSome.mpr ?_
  rcases apply_members db st with ⟨f, hf, hmap⟩ | ⟨row, -, happ⟩
  · exact ⟨f m, hmap ▸ List.mem_map_of_mem hm, (hf.identity m).trans hid⟩
  · exact ⟨m, happ ▸ List.mem_append_left _ hm, hid⟩

theorem enterprise_isSome_apply {db : Db} {id : String} (st : Stmt)
    (h : (db.enterprise id).isSome) : ((st.apply db).enterprise id).isSome := by
  obtain ⟨e, he, hid⟩ := find?_key_isSome.mp h
  obtain ⟨f, hf, hmap⟩ := apply_enterprises db st
  exact find?_key_isSome.mpr ⟨f e, hmap ▸ List.mem_map_of_mem he, (hf e).trans hid⟩

theorem account_isSome_apply {db : Db} {identity : String} {st : Stmt}
    (hst : st ≠ .deleteAccount identity) (h : (db.account identity).isSome) :
    ((st.apply db).account identity).isSome := by
  obtain ⟨a, ha, hid⟩ := find?_key_isSome.mp h
  refine find?_key_isSome.mpr ?_
  rcases apply_accounts db st with ⟨f, hf, hmap⟩ | ⟨row, -, happ⟩ | ⟨identity', rfl, hfil⟩
  · exact ⟨f a, hmap ▸ List.mem_map_of_mem ha, (hf a).trans hid⟩
  · exact ⟨a, happ ▸ List.mem_append_left _ ha, hid⟩
  · refine ⟨a, hfil ▸ List.mem_filter.mpr ⟨ha, ?_⟩, hid⟩
    simp only [ne_eq, decide_not, Bool.not_eq_true', decide_eq_false_iff_not]
    rintro rfl
    exact hst (by rw [hid])

/-! ## Integrity along steps -/

variable {env : Env} {A : Stmt → Prop} {w w' : World}

theorem inventory_eq_none {db : Db} {identity : String} (h : db.inventory identity = none) :
    ∀ m ∈ db.members, m.identity ≠ identity := by
  intro m hm
  simpa using List.find?_eq_none.mp h m hm

theorem leases_keyed {κ : Type} {key : LeaseRow → κ} {st : Stmt} {db : Db}
    (h : Keyed key db.leases) (hkey : ∀ f, KeepsLease f → ∀ l, key (f l) = key l)
    (hfresh : ∀ row, st = .insertLease row → ∀ l ∈ db.leases, key l ≠ key row) :
    Keyed key (st.apply db).leases := by
  rcases apply_leases db st with ⟨f, hf, hmap⟩ | ⟨p, hdel, -⟩ | ⟨row, hst, happ⟩
  · rw [hmap]
    exact h.map (hkey f hf)
  · rw [hdel]
    exact h.filter _
  · rw [happ]
    exact h.append (hfresh row hst)

theorem members_keyed {κ : Type} {key : Inventory → κ} {st : Stmt} {db : Db}
    (h : Keyed key db.members) (hkey : ∀ f, KeepsMember f → ∀ m, key (f m) = key m)
    (hfresh : ∀ row, st = .insertMember row → ∀ m ∈ db.members, key m ≠ key row) :
    Keyed key (st.apply db).members := by
  rcases apply_members db st with ⟨f, hf, hmap⟩ | ⟨row, hst, happ⟩
  · rw [hmap]
    exact h.map (hkey f hf)
  · rw [happ]
    exact h.append (hfresh row hst)

/-- A member of the tables after a statement is an old one, rewritten, or the inserted one. -/
theorem mem_members_apply {db : Db} {st : Stmt} {m : Inventory}
    (h : m ∈ (st.apply db).members) :
    (∃ m₀ ∈ db.members, m.identity = m₀.identity ∧ m.enterpriseId = m₀.enterpriseId
      ∧ m.ordinal = m₀.ordinal) ∨ st = .insertMember m := by
  rcases apply_members db st with ⟨f, hf, hmap⟩ | ⟨row, hst, happ⟩
  · rw [hmap] at h
    obtain ⟨m₀, hm₀, rfl⟩ := List.mem_map.mp h
    exact .inl ⟨m₀, hm₀, hf.identity m₀, hf.enterpriseId m₀, hf.ordinal m₀⟩
  · rw [happ] at h
    rcases List.mem_append.mp h with h | h
    · exact .inl ⟨m, h, rfl, rfl, rfl⟩
    · obtain rfl := List.mem_singleton.mp h
      exact .inr hst

theorem mem_leases_apply {db : Db} {st : Stmt} {l : LeaseRow} (h : l ∈ (st.apply db).leases) :
    (∃ l₀ ∈ db.leases, l.leaseId = l₀.leaseId ∧ l.callerId = l₀.callerId
      ∧ l.memberIdentity = l₀.memberIdentity) ∨ st = .insertLease l := by
  rcases apply_leases db st with ⟨f, hf, hmap⟩ | ⟨p, hdel, -⟩ | ⟨row, hst, happ⟩
  · rw [hmap] at h
    obtain ⟨l₀, hl₀, rfl⟩ := List.mem_map.mp h
    exact .inl ⟨l₀, hl₀, hf.leaseId l₀, hf.callerId l₀, hf.memberIdentity l₀⟩
  · rw [hdel] at h
    exact .inl ⟨l, List.mem_of_mem_filter h, rfl, rfl, rfl⟩
  · rw [happ] at h
    rcases List.mem_append.mp h with h | h
    · exact .inl ⟨l, h, rfl, rfl, rfl⟩
    · obtain rfl := List.mem_singleton.mp h
      exact .inr hst

theorem mem_holds_apply {db : Db} {st : Stmt} {h : HoldRow} (hh : h ∈ (st.apply db).holds) :
    h ∈ db.holds ∨ st = .insertHold h := by
  rcases apply_holds db st with ⟨p, hfil⟩ | ⟨row, hst, happ⟩
  · exact .inl (List.mem_of_mem_filter (hfil ▸ hh))
  · rcases List.mem_append.mp (happ ▸ hh) with hh | hh
    · exact .inl hh
    · exact .inr (List.mem_singleton.mp hh ▸ hst)

theorem mem_catalogHolds_apply {db : Db} {st : Stmt} {h : CatalogHold}
    (hh : h ∈ (st.apply db).catalogHolds) : h ∈ db.catalogHolds ∨ st = .insertCatalogHold h := by
  rcases apply_catalogHolds db st with ⟨p, hfil⟩ | ⟨row, hst, happ⟩
  · exact .inl (List.mem_of_mem_filter (hfil ▸ hh))
  · rcases List.mem_append.mp (happ ▸ hh) with hh | hh
    · exact .inl hh
    · exact .inr (List.mem_singleton.mp hh ▸ hst)

/-- The lease of a hold that survives a statement survives it too. -/
theorem holdLease_apply {st : Stmt} (hI : w.db.Integrity) (hg : st.Guard env w w') {h : HoldRow}
    (hh : h ∈ (st.apply w.db).holds) : ∃ l ∈ (st.apply w.db).leases, l.leaseId = h.leaseId := by
  have hlease : ∃ l ∈ w.db.leases, l.leaseId = h.leaseId := by
    rcases mem_holds_apply hh with hold | rfl
    · exact hI.holdLease h hold
    · obtain ⟨-, -, l, hl, hid, -⟩ := hg
      exact ⟨l, hl, hid⟩
  obtain ⟨l, hl, hid⟩ := hlease
  rcases apply_leases w.db st with ⟨f, hf, hmap⟩ | ⟨p, hdel, -⟩ | ⟨row, -, happ⟩
  · exact ⟨f l, hmap ▸ List.mem_map_of_mem hl, (hf.leaseId l).trans hid⟩
  · rw [hdel] at hh ⊢
    refine ⟨l, List.mem_filter.mpr ⟨hl, ?_⟩, hid⟩
    have hkept := (List.mem_filter.mp hh).2
    simp only [Bool.not_eq_true', List.any_eq_false, Bool.and_eq_true, decide_eq_true_eq,
      not_and] at hkept ⊢
    exact Bool.eq_false_iff.mpr fun hp => hkept l hl hp hid
  · exact ⟨l, happ ▸ List.mem_append_left _ hl, hid⟩

theorem Db.Integrity.apply {st : Stmt} (h : w.db.Integrity) (hg : st.Guard env w w') :
    (st.apply w.db).Integrity where
  members := members_keyed h.members (fun _ hf => hf.identity) fun row hst => by
    subst hst
    exact inventory_eq_none hg.1
  ordinals := members_keyed h.ordinals (fun _ hf => hf.ordinal) fun row hst => by
    subst hst
    exact hg.2.2.2.1
  accounts := by
    rcases apply_accounts w.db st with ⟨f, hf, hmap⟩ | ⟨row, rfl, happ⟩ | ⟨identity, -, hfil⟩
    · rw [hmap]
      exact h.accounts.map hf
    · rw [happ]
      exact h.accounts.append fun a ha => by simpa using List.find?_eq_none.mp hg.1 a ha
    · rw [hfil]
      exact h.accounts.filter _
  enterprises := by
    obtain ⟨f, hf, hmap⟩ := apply_enterprises w.db st
    rw [hmap]
    exact h.enterprises.map hf
  leaseIds := leases_keyed h.leaseIds (fun _ hf => hf.leaseId) fun row hst l hl => by
    subst hst
    exact (hg.2.2.2.2 l hl).2.2
  leaseCallers := leases_keyed h.leaseCallers (fun _ hf => hf.callerId) fun row hst l hl => by
    subst hst
    exact (hg.2.2.2.2 l hl).1
  leaseMembers := leases_keyed h.leaseMembers (fun _ hf => hf.memberIdentity) fun row hst l hl => by
    subst hst
    exact (hg.2.2.2.2 l hl).2.1
  memberAccount := fun m hm => by
    rcases mem_members_apply hm with ⟨m₀, hm₀, hid, -⟩ | rfl
    · rw [hid]
      refine account_isSome_apply ?_ (h.memberAccount m₀ hm₀)
      rintro rfl
      exact inventory_eq_none hg m₀ hm₀ rfl
    · exact account_isSome_apply nofun hg.2.1
  memberEnterprise := fun m hm => by
    rcases mem_members_apply hm with ⟨m₀, hm₀, -, hid, -⟩ | rfl
    · exact hid ▸ enterprise_isSome_apply st (h.memberEnterprise m₀ hm₀)
    · exact enterprise_isSome_apply _ hg.2.2.1
  leaseMember := fun l hl => by
    rcases mem_leases_apply hl with ⟨l₀, hl₀, -, -, hid⟩ | rfl
    · exact hid ▸ inventory_isSome_apply st (h.leaseMember l₀ hl₀)
    · obtain ⟨-, hready, -⟩ := hg
      obtain ⟨m, hm, -⟩ := hready.row
      exact inventory_isSome_apply _ (by rw [hm]; rfl)
  holdLease := fun _ hh => holdLease_apply h hg hh
  catalogMember := fun c hc => by
    rcases mem_catalogHolds_apply hc with hold | rfl
    · exact inventory_isSome_apply st (h.catalogMember c hold)
    · obtain ⟨-, -, -, ⟨m, hm, -⟩, -⟩ := hg
      exact inventory_isSome_apply _ (by rw [hm]; rfl)

theorem Step.integrity (hstep : Step env A w w') (h : w.db.Integrity) : w'.db.Integrity := by
  cases hstep with
  | idle _ hdb => exact hdb ▸ h
  | exec st _ _ hg hdb => exact hdb ▸ h.apply hg

theorem run_integrity (env : Env) (hw : w.db.Integrity) (ops : List Op) : (run env w ops).db.Integrity :=
  run_invariant (fun _ _ _ hstep h => hstep.integrity h) w hw ops

end GhcpConsole.Pool
