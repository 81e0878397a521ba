import GhcpConsole.Pool.Integrity

/-!
# Lease exclusivity

A caller is bound to a member by a lease row or by a catalog hold. No constraint of the schema
spans the two tables; that the binding is a partial injection rests on what each admission has
tested when it inserts. The invariant is about all catalog holds, live or not, so it does not
depend on the clock.

A lease row is deleted only where no hold pins its member. Within one operation holds go away by
expiry, by the completion of the operation's own hold, or together with their lease, so the holds
the operation found account for those it sees when it deletes.
-/

namespace GhcpConsole.Pool

variable {env : Env} {A : Stmt → Prop} {w w' : World}

namespace Db

/-- A lease row or a catalog hold, expired or not, binds the caller to the member. -/
def Bound (db : Db) (caller identity : String) : Prop :=
  (∃ l ∈ db.leases, l.callerId = caller ∧ l.memberIdentity = identity)
  ∨ ∃ h ∈ db.catalogHolds, h.callerId = caller ∧ h.memberIdentity = identity

/-- The binding at an instant: lease rows and the catalog holds that are live then. -/
def BoundAt (db : Db) (t : Nat) (caller identity : String) : Prop :=
  (∃ l ∈ db.leases, l.callerId = caller ∧ l.memberIdentity = identity)
  ∨ ∃ h ∈ db.catalogHolds, t < h.expiresAt ∧ h.callerId = caller ∧ h.memberIdentity = identity

theorem BoundAt.bound {db : Db} {t : Nat} {caller identity : String}
    (h : db.BoundAt t caller identity) : db.Bound caller identity := by
  rcases h with h | ⟨c, hc, -, h⟩
  · exact .inl h
  · exact .inr ⟨c, hc, h⟩

/-! ## What the queries of an admission establish -/

theorem no_lease_of_callerLease {db : Db} {caller : String} (hI : db.Integrity)
    (h : db.callerLease caller = none) : ∀ l ∈ db.leases, l.callerId ≠ caller := by
  intro l hl hcaller
  obtain ⟨m, hm⟩ := Option.isSome_iff_exists.mp (hI.leaseMember l hl)
  have hempty := List.head?_eq_none_iff.mp h
  rw [List.filterMap_eq_nil_iff] at hempty
  have := hempty l hl
  simp [hcaller, leaseRecord, hm] at this

theorem no_catalogHold_of_callerCatalog {db : Db} {caller : String} (hI : db.Integrity)
    (h : db.callerCatalog caller = none) : ∀ c ∈ db.catalogHolds, c.callerId ≠ caller := by
  intro c hc hcaller
  obtain ⟨m, hm⟩ := Option.isSome_iff_exists.mp (hI.catalogMember c hc)
  obtain ⟨e, he⟩ := Option.isSome_iff_exists.mp
    (hI.memberEnterprise m (List.mem_of_find?_eq_some hm))
  have hempty := List.head?_eq_none_iff.mp h
  rw [List.filterMap_eq_nil_iff] at hempty
  have := hempty c (mem_orderBy.mpr (List.mem_filter.mpr ⟨hc, by simpa using hcaller⟩))
  simp [hm, he] at this

theorem catalogHold_of_callerCatalog {db : Db} {caller : String} {member : PoolMember}
    {state : LifecycleState} (h : db.callerCatalog caller = some (member, state)) :
    ∃ c ∈ db.catalogHolds, c.callerId = caller ∧ c.memberIdentity = member.identity := by
  obtain ⟨c, hc, hmem⟩ := List.mem_filterMap.mp (List.mem_of_mem_head? h)
  obtain ⟨hc, hcaller⟩ := List.mem_filter.mp (mem_orderBy.mp hc)
  simp only [Option.bind_eq_bind, Option.bind_eq_some_iff, Option.pure_def, Option.some.injEq,
    Prod.mk.injEq] at hmem
  obtain ⟨_, -, _, -, rfl, -⟩ := hmem
  exact ⟨c, hc, by simpa using hcaller, rfl⟩

theorem not_bound_of_unbound {db : Db} {identity : String} (h : db.unbound identity = true)
    (caller : String) : ¬db.Bound caller identity := by
  simp only [unbound, Bool.and_eq_true, Bool.not_eq_true', List.any_eq_false,
    decide_eq_true_eq] at h
  rintro (⟨l, hl, -, hm⟩ | ⟨c, hc, -, hm⟩)
  · exact h.1 l hl hm
  · exact h.2 c hc hm

/-- A caller without a lease gets the member it already has, or both ends are free. -/
theorem Bindable.free {db : Db} {caller identity : String} (hI : db.Integrity)
    (hnone : db.callerLease caller = none) (h : db.Bindable caller identity) :
    db.Bound caller identity ∨ ((∀ m, ¬db.Bound caller m) ∧ ∀ c, ¬db.Bound c identity) := by
  rcases h with ⟨e, hcat⟩ | ⟨hcat, hfree⟩
  · exact .inl (.inr (catalogHold_of_callerCatalog hcat))
  · refine .inr ⟨?_, not_bound_of_unbound hfree⟩
    rintro m (⟨l, hl, hcaller, -⟩ | ⟨c, hc, hcaller, -⟩)
    · exact no_lease_of_callerLease hI hnone l hl hcaller
    · exact no_catalogHold_of_callerCatalog hI hcat c hc hcaller

end Db

/-! ## The binding along steps -/

theorem bound_apply {db : Db} {st : Stmt} {caller identity : String}
    (h : (st.apply db).Bound caller identity) : db.Bound caller identity
      ∨ (∃ row, st = .insertLease row ∧ caller = row.callerId ∧ identity = row.memberIdentity)
      ∨ ∃ row, st = .insertCatalogHold row ∧ caller = row.callerId
          ∧ identity = row.memberIdentity := by
  rcases h with ⟨l, hl, hcaller, hmember⟩ | ⟨c, hc, hcaller, hmember⟩
  · rcases mem_leases_apply hl with ⟨l₀, hl₀, -, hc₀, hm₀⟩ | rfl
    · exact .inl (.inl ⟨l₀, hl₀, hc₀ ▸ hcaller, hm₀ ▸ hmember⟩)
    · exact .inr (.inl ⟨l, rfl, hcaller.symm, hmember.symm⟩)
  · rcases mem_catalogHolds_apply hc with hc | rfl
    · exact .inl (.inr ⟨c, hc, hcaller, hmember⟩)
    · exact .inr (.inr ⟨c, rfl, hcaller.symm, hmember.symm⟩)

theorem bound_biUnique_apply {st : Stmt} (hI : w.db.Integrity) (hg : st.Guard env w w')
    (h : Relator.BiUnique w.db.Bound) : Relator.BiUnique (st.apply w.db).Bound := by
  by_cases hlease : ∃ row, st = .insertLease row
  · obtain ⟨row, rfl⟩ := hlease
    obtain ⟨-, -, hnone, hbind, -⟩ := hg
    refine biUnique_insert h (hbind.free hI hnone) fun c m hb => ?_
    rcases bound_apply hb with hb | ⟨row', heq, hc, hm⟩ | ⟨row', heq, -⟩
    · exact .inl hb
    · cases heq
      exact .inr ⟨hc, hm⟩
    · cases heq
  by_cases hcatalog : ∃ row, st = .insertCatalogHold row
  · obtain ⟨row, rfl⟩ := hcatalog
    obtain ⟨-, -, -, -, hbind⟩ := hg
    have hends : w.db.Bound row.callerId row.memberIdentity
        ∨ ((∀ m, ¬w.db.Bound row.callerId m) ∧ ∀ c, ¬w.db.Bound c row.memberIdentity) := by
      rcases hlease : w.db.callerLease row.callerId with _ | lease <;> rw [hlease] at hbind
      · exact hbind.free hI hlease
      · obtain ⟨l, hl, _, hcaller, -, rfl⟩ := Db.callerLease_eq hlease
        exact .inl (.inl ⟨l, hl, hcaller, hbind⟩)
    refine biUnique_insert h hends fun c m hb => ?_
    rcases bound_apply hb with hb | ⟨row', heq, -⟩ | ⟨row', heq, hc, hm⟩
    · exact .inl hb
    · cases heq
    · cases heq
      exact .inr ⟨hc, hm⟩
  · refine biUnique_mono h fun c m hb => ?_
    rcases bound_apply hb with hb | ⟨row, heq, -⟩ | ⟨row, heq, -⟩
    · exact hb
    · exact absurd ⟨row, heq⟩ hlease
    · exact absurd ⟨row, heq⟩ hcatalog

/-- The invariant of every run: the schema's constraints and an exclusive binding. -/
structure Db.Exclusive (db : Db) : Prop extends db.Integrity where
  bound : Relator.BiUnique db.Bound

theorem Step.exclusive (hstep : Step env A w w') (h : w.db.Exclusive) : w'.db.Exclusive := by
  cases hstep with
  | idle _ hdb => exact hdb ▸ h
  | exec st _ _ hg hdb =>
      exact hdb ▸ ⟨h.toIntegrity.apply hg, bound_biUnique_apply h.toIntegrity hg h.bound⟩

/-- A pool as start-up leaves it: any members, nobody bound. -/
structure Db.Initial (db : Db) : Prop extends db.Integrity where
  leases : db.leases = []
  holds : db.holds = []
  catalogHolds : db.catalogHolds = []

theorem Db.Initial.exclusive {db : Db} (h : db.Initial) : db.Exclusive where
  toIntegrity := h.toIntegrity
  bound := by
    have : ∀ c m, ¬db.Bound c m := by simp [Bound, h.leases, h.catalogHolds]
    exact ⟨fun _ _ _ h₁ => absurd h₁ (this _ _), fun _ _ _ h₁ => absurd h₁ (this _ _)⟩

theorem run_exclusive (env : Env) (hw : w.db.Exclusive) (ops : List Op) : (run env w ops).db.Exclusive :=
  run_invariant (fun _ _ _ hstep h => hstep.exclusive h) w hw ops

/-! ## Deleting a lease -/

/-- The tables an operation starts from, less the hold that it completes. -/
def Op.completed (db : Db) : Op → Db
  | .finish held _ =>
      if (db.heldRow held).isSome then (Stmt.deleteHold held).apply db else db
  | _ => db

theorem completed_leases (db : Db) (op : Op) : (op.completed db).leases = db.leases := by
  unfold Op.completed
  split
  · split
    · simp only [Stmt.apply]
      split <;> rfl
    · rfl
  · rfl

theorem completed_subset (db : Db) (op : Op) :
    (∀ h ∈ (op.completed db).holds, h ∈ db.holds)
      ∧ ∀ c ∈ (op.completed db).catalogHolds, c ∈ db.catalogHolds := by
  unfold Op.completed
  split
  · split
    · simp only [Stmt.apply]
      split
      · exact ⟨fun _ => List.mem_of_mem_filter, fun _ => id⟩
      · exact ⟨fun _ => id, fun _ => List.mem_of_mem_filter⟩
    · exact ⟨fun _ => id, fun _ => id⟩
  · exact ⟨fun _ => id, fun _ => id⟩

/-- A handle without a row completes nothing. -/
theorem finish_stale {held : HeldLease} {success : Bool} (h : w.db.heldRow held = none) :
    step env w (.finish held success) = w := by
  simp [step, Op.exec, finish, transaction, Tx.transaction, Tx.bind_run, h]

/-- A hold goes away when it expires, when it is completed, or with its lease. -/
theorem hold_survives {st : Stmt} {h : HoldRow} (hI : w.db.Integrity) (hh : h ∈ w.db.holds)
    (hg : st.Guard env w w')
    (hdelete : ∀ held, st = .deleteHold held → h ∈ ((Stmt.deleteHold held).apply w.db).holds)
    (hlease : ∃ l ∈ (st.apply w.db).leases, l.leaseId = h.leaseId) :
    h ∈ (st.apply w.db).holds ∨ ∃ t, Past env w' t ∧ h.expiresAt ≤ t := by
  have hcascade : ∀ p, (∃ l ∈ (w.db.deleteLeases p).leases, l.leaseId = h.leaseId) →
      h ∈ (w.db.deleteLeases p).holds := by
    rintro p ⟨l, hl, hid⟩
    obtain ⟨hl, hp⟩ := List.mem_filter.mp hl
    refine List.mem_filter.mpr ⟨hh, ?_⟩
    simp only [Bool.not_eq_true', List.any_eq_false, Bool.and_eq_true, decide_eq_true_eq,
      not_and]
    intro l' hl' hp' hid'
    obtain rfl := hI.leaseIds.eq hl' hl (hid'.trans hid.symm)
    simp [hp'] at hp
  cases st with
  | deleteExpiredHolds t =>
      by_cases hlive : t < h.expiresAt
      · exact .inl (List.mem_filter.mpr ⟨hh, by simpa using hlive⟩)
      · exact .inr ⟨t, hg, Nat.le_of_not_lt hlive⟩
  | deleteLease leaseId => exact .inl (hcascade _ hlease)
  | deleteLeaseOf identity => exact .inl (hcascade _ hlease)
  | insertHold row => exact .inl (List.mem_append_left _ hh)
  | deleteHold held => exact .inl (hdelete held rfl)
  | writeCredentials identity c now =>
      left
      simp only [Stmt.apply, Db.writeCredentials]
      split
      · split <;> exact hh
      · exact hh
  | _ => exact .inl hh

theorem catalogHold_survives {st : Stmt} {h : CatalogHold} (hh : h ∈ w.db.catalogHolds)
    (hg : st.Guard env w w') (hdelete : ∀ held, st = .deleteHold held →
      h ∈ ((Stmt.deleteHold held).apply w.db).catalogHolds) :
    h ∈ (st.apply w.db).catalogHolds ∨ ∃ t, Past env w' t ∧ h.expiresAt ≤ t := by
  cases st with
  | deleteExpiredCatalogHolds t =>
      by_cases hlive : t < h.expiresAt
      · exact .inl (List.mem_filter.mpr ⟨hh, by simpa using hlive⟩)
      · exact .inr ⟨t, hg, Nat.le_of_not_lt hlive⟩
  | insertCatalogHold row => exact .inl (List.mem_append_left _ hh)
  | deleteHold held => exact .inl (hdelete held rfl)
  | writeCredentials identity c now =>
      left
      simp only [Stmt.apply, Db.writeCredentials]
      split
      · split <;> exact hh
      · exact hh
  | _ => exact .inl hh

/-- The lease is still there, and so are its member's holds in `db₀`, less those expired. -/
structure Held (env : Env) (db₀ : Db) (l : LeaseRow) (v : World) : Prop where
  lease : ∃ x ∈ v.db.leases, x.leaseId = l.leaseId ∧ x.memberIdentity = l.memberIdentity
  holds : ∀ h ∈ db₀.holds, h.leaseId = l.leaseId →
    h ∈ v.db.holds ∨ ∃ t, Past env v t ∧ h.expiresAt ≤ t
  catalogHolds : ∀ h ∈ db₀.catalogHolds, h.memberIdentity = l.memberIdentity →
    h ∈ v.db.catalogHolds ∨ ∃ t, Past env v t ∧ h.expiresAt ≤ t

theorem Past.le_reading {t t' : Nat} {v v' : World} (h : Past env v t)
    (h' : Reading env v v' t') : t ≤ t' := by
  obtain ⟨n, hn, rfl⟩ := h
  obtain ⟨n', hn', -, rfl⟩ := h'
  exact env.clock_mono (Nat.le_of_lt (Nat.lt_of_lt_of_le hn hn'))

/-- Where the member of a held lease is found without holds, no hold of `db₀` is live either. -/
theorem Held.unheld {db₀ : Db} {l : LeaseRow} {v v' : World} {t : Nat} (h : Held env db₀ l v)
    (hkey : Keyed (·.memberIdentity) db₀.leases) (hl : l ∈ db₀.leases)
    (ht : Reading env v v' t) (hnone : v.db.hasHolds l.memberIdentity t = false) :
    db₀.hasHolds l.memberIdentity t = false := by
  simp only [Db.hasHolds, Bool.or_eq_false_iff, List.any_eq_false, Bool.and_eq_true,
    decide_eq_true_eq, List.any_eq_true, not_and, not_exists] at hnone ⊢
  refine ⟨fun h₀ hh₀ hlive l' hl' hid hmem => ?_, fun c hc hmem hlive => ?_⟩
  · obtain rfl := hkey.eq hl' hl hmem
    obtain ⟨x, hx, hxid, hxm⟩ := h.lease
    rcases h.holds h₀ hh₀ hid.symm with hv | ⟨t', hpast, hexp⟩
    · exact hnone.1 h₀ hv hlive x hx (hxid.trans hid) hxm
    · exact absurd (Nat.le_trans hexp (hpast.le_reading ht)) (Nat.not_le_of_lt hlive)
  · rcases h.catalogHolds c hc hmem with hv | ⟨t', hpast, hexp⟩
    · exact hnone.2 c hv hmem hlive
    · exact absurd (Nat.le_trans hexp (hpast.le_reading ht)) (Nat.not_le_of_lt hlive)

/-- Completing the handle's hold deletes none of the holds in `db₀`. -/
def Spares (db₀ : Db) (held : HeldLease) : Prop := ∀ db : Db,
  (∀ h ∈ db₀.holds, h ∈ db.holds → h ∈ ((Stmt.deleteHold held).apply db).holds)
  ∧ ∀ c ∈ db₀.catalogHolds, c ∈ db.catalogHolds →
      c ∈ ((Stmt.deleteHold held).apply db).catalogHolds

theorem spares_deleteHold (db : Db) (held : HeldLease) :
    Spares ((Stmt.deleteHold held).apply db) held := by
  intro db'
  simp only [Stmt.apply]
  cases held.kind with
  | lease =>
      refine ⟨fun h hh hh' => List.mem_filter.mpr ⟨hh', ?_⟩, fun c _ hc' => hc'⟩
      exact (List.mem_filter.mp hh).2
  | catalog =>
      refine ⟨fun h _ hh' => hh', fun c hc hc' => List.mem_filter.mpr ⟨hc', ?_⟩⟩
      exact (List.mem_filter.mp hc).2

/-- One step: the lease stays, with its holds, or it goes where no hold pins its member. -/
theorem Held.step {db₀ : Db} {l : LeaseRow} {v v' : World} (h : Held env db₀ l v)
    (hI : v.db.Integrity) (hspares : ∀ held, A (.deleteHold held) → Spares db₀ held)
    (hstep : Step env A v v') : Held env db₀ l v'
      ∨ ∃ t, Reading env v v' t ∧ v.db.hasHolds l.memberIdentity t = false := by
  obtain ⟨x, hx, hxid, hxm⟩ := h.lease
  cases hstep with
  | idle hb hdb =>
      refine .inl ⟨⟨x, hdb ▸ hx, hxid, hxm⟩, fun h₀ hh₀ hid => ?_, fun c hc hm => ?_⟩
      · exact (h.holds h₀ hh₀ hid).imp (fun h => hdb ▸ h) fun ⟨t, ht, he⟩ => ⟨t, ht.mono hb, he⟩
      · exact (h.catalogHolds c hc hm).imp (fun h => hdb ▸ h) fun ⟨t, ht, he⟩ => ⟨t, ht.mono hb, he⟩
  | exec st hA hb hg hdb =>
      by_cases hkept : ∃ y ∈ (st.apply v.db).leases, y.leaseId = l.leaseId
          ∧ y.memberIdentity = l.memberIdentity
      · left
        refine ⟨hdb ▸ hkept, fun h₀ hh₀ hid => ?_, fun c hc hm => ?_⟩
        · rcases h.holds h₀ hh₀ hid with hv | ⟨t, ht, he⟩
          · obtain ⟨y, hy, hyid, -⟩ := hkept
            rw [hdb]
            refine hold_survives hI hv hg (fun held hst => ?_) ⟨y, hy, hyid.trans hid.symm⟩
            exact (hspares held (hst ▸ hA) v.db).1 h₀ hh₀ hv
          · exact .inr ⟨t, ht.mono hb, he⟩
        · rcases h.catalogHolds c hc hm with hv | ⟨t, ht, he⟩
          · rw [hdb]
            refine catalogHold_survives hv hg fun held hst => ?_
            exact (hspares held (hst ▸ hA) v.db).2 c hc hv
          · exact .inr ⟨t, ht.mono hb, he⟩
      · right
        rcases apply_leases v.db st with ⟨f, hf, hmap⟩ | ⟨p, hdel, hst⟩ | ⟨row, -, happ⟩
        · refine absurd ⟨f x, hmap ▸ List.mem_map_of_mem hx, ?_⟩ hkept
          exact ⟨(hf.leaseId x).trans hxid, (hf.memberIdentity x).trans hxm⟩
        · have hgone : x ∉ (st.apply v.db).leases := fun hmem => hkept ⟨x, hmem, hxid, hxm⟩
          rcases hst with ⟨leaseId, rfl⟩ | ⟨identity, rfl⟩
          · have hid : x.leaseId = leaseId := by
              by_contra hne
              exact hgone (List.mem_filter.mpr ⟨hx, by simpa using hne⟩)
            obtain ⟨identity, ⟨t, ht, hnone⟩, hmember⟩ := hg
            obtain ⟨y, hy, hyid, rfl⟩ := hmember x hx hid
            obtain rfl := hI.leaseIds.eq hy hx (hyid.trans hid.symm)
            exact ⟨t, ht, hxm ▸ hnone⟩
          · have hid : x.memberIdentity = identity := by
              by_contra hne
              exact hgone (List.mem_filter.mpr ⟨hx, by simpa using hne⟩)
            obtain ⟨t, ht, hnone⟩ := hg
            exact ⟨t, ht, by rw [← hxm, hid]; exact hnone⟩
        · exact absurd ⟨x, happ ▸ List.mem_append_left _ hx, hxid, hxm⟩ hkept

/-- A chain of steps that loses the lease has, at some reading, found its member without holds. -/
theorem unheld_of_deleted {op : Op} {l : LeaseRow} (hI : w.db.Integrity) (hl : l ∈ w.db.leases)
    (hspares : ∀ held, op.permits (.deleteHold held) → Spares (op.completed w.db) held)
    (hsteps : Steps env op.permits w w') (hgone : ∀ l' ∈ w'.db.leases, l'.leaseId ≠ l.leaseId) :
    ∃ t, Reading env w w' t ∧ (op.completed w.db).hasHolds l.memberIdentity t = false := by
  have hkey : Keyed (·.memberIdentity) (op.completed w.db).leases := by
    rw [completed_leases]
    exact hI.leaseMembers
  have hl₀ : l ∈ (op.completed w.db).leases := by rwa [completed_leases]
  have hrun : w'.db.Integrity ∧ w.Before w' ∧ (Held env (op.completed w.db) l w'
      ∨ ∃ t, Reading env w w' t ∧ (op.completed w.db).hasHolds l.memberIdentity t = false) := by
    clear hgone
    induction hsteps with
    | refl =>
        refine ⟨hI, .refl w, .inl ⟨⟨l, hl, rfl, rfl⟩, fun h hh _ => .inl ?_,
          fun c hc _ => .inl ?_⟩⟩
        · exact (completed_subset w.db op).1 h hh
        · exact (completed_subset w.db op).2 c hc
    | tail hsteps hstep ih =>
        obtain ⟨hI', hb, ih⟩ := ih
        refine ⟨hstep.integrity hI', hb.trans hstep.before, ?_⟩
        rcases ih with hheld | ⟨t, ht, hnone⟩
        · rcases hheld.step hI' hspares hstep with hheld' | ⟨t, ht, hnone⟩
          · exact .inl hheld'
          · exact .inr ⟨t, ht.widen hb (.refl _), hheld.unheld hkey hl₀ ht hnone⟩
        · exact .inr ⟨t, ht.widen (.refl _) hstep.before, hnone⟩
  rcases hrun.2.2 with hheld | h
  · obtain ⟨x, hx, hid, -⟩ := hheld.lease
    exact absurd hid (hgone x hx)
  · exact h

/-! ## The result -/

/-- In every state of every run the binding is exclusive at every instant, and an operation that
deletes a lease row has read the clock at a time when no hold on its member was live. -/
theorem lease_exclusivity (env : Env) (w : World) (hw : w.db.Initial) (ops : List Op) :
    (∀ t, Relator.BiUnique ((run env w ops).db.BoundAt t))
    ∧ ∀ (op : Op), ∀ l ∈ (run env w ops).db.leases,
        (∀ l' ∈ (step env (run env w ops) op).db.leases, l'.leaseId ≠ l.leaseId) →
        ∃ t, Reading env (run env w ops) (step env (run env w ops) op) t
          ∧ (op.completed (run env w ops).db).hasHolds l.memberIdentity t = false := by
  have hex := run_exclusive env hw.exclusive ops
  refine ⟨fun t => biUnique_mono hex.bound fun _ _ h => h.bound, fun op l hl hgone => ?_⟩
  generalize run env w ops = v at *
  by_cases hstale : ∃ held success, op = .finish held success ∧ v.db.heldRow held = none
  · obtain ⟨held, success, rfl, hnone⟩ := hstale
    rw [finish_stale hnone] at hgone
    exact absurd rfl (hgone l hl)
  refine unheld_of_deleted hex.toIntegrity hl (fun held hpermit => ?_) (steps_of_step env v op) hgone
  obtain ⟨success, rfl⟩ := hpermit
  rcases hrow : v.db.heldRow held with _ | row
  · exact absurd ⟨held, success, rfl, hrow⟩ hstale
  · simp only [Op.completed, hrow, Option.isSome_some, if_true]
    exact spares_deleteHold v.db held

theorem Sample.db_initial : Sample.db.Initial where
  members := by decide
  ordinals := by decide
  accounts := by decide
  enterprises := by decide
  leaseIds := .nil
  leaseCallers := .nil
  leaseMembers := .nil
  memberAccount := by decide
  memberEnterprise := by decide
  leaseMember := nofun
  holdLease := nofun
  catalogMember := nofun
  leases := rfl
  holds := rfl
  catalogHolds := rfl

/-- The sample pool after one admission and a sweep. -/
def Sample.leased : World :=
  run Sample.env Sample.world [.acquire Sample.caller false none, .reclaim]

theorem lease_exclusivity_sample :
    (∀ t, Relator.BiUnique (Sample.leased.db.BoundAt t))
    ∧ ∀ (op : Op), ∀ l ∈ Sample.leased.db.leases,
        (∀ l' ∈ (step Sample.env Sample.leased op).db.leases, l'.leaseId ≠ l.leaseId) →
        ∃ t, Reading Sample.env Sample.leased (step Sample.env Sample.leased op) t
          ∧ (op.completed Sample.leased.db).hasHolds l.memberIdentity t = false :=
  lease_exclusivity Sample.env Sample.world Sample.db_initial
    [.acquire Sample.caller false none, .reclaim]

end GhcpConsole.Pool
