import GhcpConsole.Pool.Steps

/-!
# Events, updates and reclamation as steps

`update_cases` is the inversion lemma of the one update every change of state goes through: what
it tested and what it wrote. `via_reclaim` follows the sweep statement by statement.
-/

namespace GhcpConsole.Pool

open Tx (Via Traces)

/-- What the store's own updates write: they take a member out of service, never forward. -/
structure Patch.Routine (p : Patch) : Prop where
  state : p.state = some .failed ∨ p.state = some .disabled ∨ p.state = some .cooling
  stage : p.stage = none ∨ p.stage = some .warmup ∨ p.stage = some .synced
  verifiedAt : p.verifiedAt = none ∨ p.verifiedAt = some none
  oauthAttemptId : p.oauthAttemptId = none ∨ p.oauthAttemptId = some none

/-- What `reclaim` writes: the member has failed, in the attempt it was in and as often as before. -/
structure Patch.Sweeping (p : Patch) : Prop where
  state : p.state = some .failed
  stage : p.stage = none ∨ p.stage = some .warmup
  attemptId : p.attemptId = none
  attempts : p.attempts = none
  verifiedAt : p.verifiedAt = none
  oauthAttemptId : p.oauthAttemptId = none

theorem Patch.Sweeping.routine {p : Patch} (h : p.Sweeping) : p.Routine where
  state := .inl h.state
  stage := h.stage.imp_right .inl
  verifiedAt := .inl h.verifiedAt
  oauthAttemptId := .inl h.oauthAttemptId

/-- The patch brings no exhausted member back to work. -/
def Patch.KeepsOut (p : Patch) : Prop :=
  ∀ m, m.state ≠ .disabled → exhausted m = true → exhausted (p.apply m) = true

theorem keepsOut_of_attempts {p : Patch} {n : Nat} (hs : p.state = some .failed)
    (hn : p.attempts = some n) (hle : 3 ≤ n) : p.KeepsOut := by
  intro m _ _
  simp [exhausted, Patch.apply, hs, hn, hle]

/-- A member in service is not exhausted. -/
theorem not_exhausted_of_served {m : Inventory} (h : m.state = .ready ∨ m.state = .cooling) :
    exhausted m = false := by
  rcases h with h | h <;> simp [exhausted, h]

/-- What an operation writes to take the member of `db` out of service. -/
structure Patch.Retiring (p : Patch) (db : Db) (identity : String) : Prop extends p.Routine where
  keepsOut : ∀ m, db.inventory identity = some m → exhausted m = true → p.KeepsOut

/-- The statements of events and of `reclaim`. -/
def Stmt.Upkeep : Stmt → Prop
  | .deleteExpiredHolds _ | .deleteExpiredCatalogHolds _ | .deleteExpiredCooldowns _
  | .wakeCooled _ | .clampLease .. | .deleteLease _ | .insertEvent _ | .trimEvents => True
  | .updateMember _ patch _ _ => patch.Sweeping
  | _ => False

variable {env : Env} {A : Stmt → Prop} {w₀ w : World}

/-- An event reads the clock and touches no other table. -/
theorem recordEvent_run (env : Env) (fields : EventFields) (w : World) :
    ∃ events, recordEvent env fields w
      = (.ok (), { w with ticks := w.ticks + 1, db := { w.db with events := events } }) :=
  ⟨_, rfl⟩

theorem via_recordEvent (hA : ∀ st, Stmt.Upkeep st → A st) (fields : EventFields)
    (ha : w.Ahead w₀) : Via (Step env A) w₀ (recordEvent env fields) w := by
  simp only [recordEvent, via_now, via_select]
  refine via_exec_bind (hA _ trivial) ha.now trivial ?_
  exact via_exec (hA _ trivial) (.refl _) trivial

theorem matchesOwner_run (env : Env) (owner : Option String) (w : World) :
    ∃ b n, w.ticks ≤ n ∧ matchesOwner env owner w = (.ok b, { w with ticks := n })
      ∧ (b = true → ∀ o ∈ owner, ∃ t, Reading env w { w with ticks := n } t
          ∧ w.db.ownedBy o t = true) := by
  cases owner with
  | none => exact ⟨true, w.ticks, Nat.le_refl _, rfl, by simp⟩
  | some owner =>
      refine ⟨_, w.ticks + 1, Nat.le_succ _, rfl, fun hb o ho => ?_⟩
      obtain rfl : owner = o := by simpa using ho
      exact ⟨_, World.Ahead.reading env (.refl w), hb⟩

/-- The tables after `writePatch`, with the two clock readings it takes. -/
def Db.patched (db : Db) (identity : String) (patch : Patch) (row : Inventory) (t t' : Nat) : Db :=
  let updated := (Stmt.updateMember identity patch t (patch.invalidating row)).apply db
  if patch.invalidating row then (Stmt.clampLease identity t').apply updated else updated

theorem writePatch_run (env : Env) (identity : String) (patch : Patch) (row : Inventory) (w : World) :
    ∃ n t t', w.ticks < n ∧ writePatch env identity patch row w
      = (.ok true, { w with ticks := n, db := w.db.patched identity patch row t t' }) := by
  cases hinv : patch.invalidating row with
  | true =>
      exact ⟨w.ticks + 2, env.clock w.ticks, env.clock (w.ticks + 1), by omega,
        by simp [writePatch, Tx.bind_run, Db.patched, hinv]⟩
  | false =>
      exact ⟨w.ticks + 1, env.clock w.ticks, 0, by omega,
        by simp [writePatch, Tx.bind_run, Db.patched, hinv]⟩

/-- What an `update` that wrote its patch found, and what it left. -/
structure Updated (env : Env) (identity : String) (patch : Patch)
    (expected : Option InventoryFence) (owner : Option String) (w w' : World)
    (row : Inventory) : Prop where
  inventory : w.db.inventory identity = some row
  enabled : row.state ≠ .disabled
  fence : matchesFence row expected = true
  owned : ∀ o ∈ owner, ∃ t, Reading env w w' t ∧ w.db.ownedBy o t = true
  unheld : patch.state = some .provisioning → w.db.Unheld env w w' identity
  before : w.Before w'
  db : ∃ t t', w'.db = w.db.patched identity patch row t t'

/-- An update never throws: it is refused, or it has nothing to write, or it writes its patch. -/
theorem update_cases (env : Env) (identity : String) (patch : Patch) (expected : Option InventoryFence)
    (owner : Option String) (w : World) :
    (∃ b w', update env identity patch expected owner w = (.ok b, w') ∧ w'.Ahead w
      ∧ (b = true → patch = {}))
    ∨ ∃ w' row, update env identity patch expected owner w = (.ok true, w')
      ∧ Updated env identity patch expected owner w w' row := by
  have hrefused : ∀ (b : Bool) (n : Nat), w.ticks ≤ n → (b = true → patch = {}) →
      update env identity patch expected owner w = (.ok b, { w with ticks := n }) →
      ∃ b w', update env identity patch expected owner w = (.ok b, w') ∧ w'.Ahead w
        ∧ (b = true → patch = {}) :=
    fun b n hn hb h => ⟨b, _, h, ⟨⟨hn, Nat.le_refl _⟩, rfl⟩, hb⟩
  rcases hrow : w.db.inventory identity with _ | row
  · refine .inl (hrefused false w.ticks (Nat.le_refl _) nofun ?_)
    simp [update, transaction, Tx.transaction, Tx.bind_run, hrow]
  by_cases hfence : row.state = .disabled ∨ matchesFence row expected = false
  · refine .inl (hrefused false w.ticks (Nat.le_refl _) nofun ?_)
    simp [update, transaction, Tx.transaction, Tx.bind_run, hrow, hfence]
  obtain ⟨b, n, hn, hown, howned⟩ := matchesOwner_run env owner w
  cases b with
  | false =>
      refine .inl (hrefused false n hn nofun ?_)
      simp [update, transaction, Tx.transaction, Tx.bind_run, hrow, hfence, hown]
  | true =>
  by_cases hpatch : patch = {}
  · refine .inl (hrefused true n hn (fun _ => hpatch) ?_)
    simp [update, transaction, Tx.transaction, Tx.bind_run, hrow, hfence, hown, hpatch]
  -- from here on the patch is written unless a hold forbids it
  have hwritten : ∀ n', n ≤ n' → (patch.state = some .provisioning →
        n < n' ∧ w.db.hasHolds identity (env.clock n) = false) →
      update env identity patch expected owner w
        = writePatch env identity patch row { w with ticks := n' } →
      ∃ w' row, update env identity patch expected owner w = (.ok true, w')
        ∧ Updated env identity patch expected owner w w' row := by
    intro n' hn' hheld h
    obtain ⟨m, t, t', hm, hrun⟩ := writePatch_run env identity patch row
      { w with ticks := n' }
    have hb : n ≤ m := Nat.le_of_lt (Nat.lt_of_le_of_lt hn' hm)
    refine ⟨_, row, h.trans hrun, hrow, (not_or.mp hfence).1,
      by simpa using (not_or.mp hfence).2, ?_, ?_, ⟨Nat.le_trans hn hb, Nat.le_refl _⟩, t, t', rfl⟩
    · intro o ho
      obtain ⟨t, ht, htrue⟩ := howned rfl o ho
      exact ⟨t, ht.widen (.refl w) ⟨hb, Nat.le_refl _⟩, htrue⟩
    · intro hprov
      exact ⟨_, ⟨n, hn, Nat.lt_trans (hheld hprov).1 hm, rfl⟩, (hheld hprov).2⟩
  by_cases hprov : patch.state = some .provisioning
  · cases hheld : w.db.hasHolds identity (env.clock n) with
    | true =>
        refine .inl (hrefused false (n + 1) (Nat.le_succ_of_le hn) nofun ?_)
        simp [update, transaction, Tx.transaction, Tx.bind_run, hrow, hfence, hown, hpatch,
          hprov, hasHolds, hheld]
    | false =>
        refine .inr (hwritten (n + 1) (Nat.le_succ n) (fun _ => ⟨Nat.lt_succ_self n, hheld⟩) ?_)
        obtain ⟨_, _, _, _, hrun⟩ := writePatch_run env identity patch row
          { w with ticks := n + 1 }
        simp [update, transaction, Tx.transaction, Tx.bind_run, hrow, hfence, hown, hpatch,
          hprov, hasHolds, hheld, hrun]
  · refine .inr (hwritten n (Nat.le_refl n) (fun h => absurd h hprov) ?_)
    obtain ⟨_, _, _, _, hrun⟩ := writePatch_run env identity patch row
      { w with ticks := n }
    simp [update, transaction, Tx.transaction, Tx.bind_run, hrow, hfence, hown, hpatch, hprov, hrun]

theorem via_update {identity : String} {patch : Patch}
    (hA : ∀ t invalidating, A (.updateMember identity patch t invalidating))
    (hc : ∀ t, A (.clampLease identity t)) (expected : Option InventoryFence)
    (owner : Option String) (ha : w.Ahead w₀) :
    Via (Step env A) w₀ (update env identity patch expected owner) w := by
  unfold Via
  rcases update_cases env identity patch expected owner w with
    ⟨b, w', hrun, ha', -⟩ | ⟨w', row, hrun, hup⟩ <;> rw [hrun]
  · exact .single (.idle (ha.before.trans ha'.before) (ha'.db.trans ha.db))
  obtain ⟨t, t', hdb⟩ := hup.db
  have hb := ha.before.trans hup.before
  have hguard : (Stmt.updateMember identity patch t (patch.invalidating row)).Guard env w₀ w' := by
    refine ⟨row, ha.db ▸ hup.inventory, hup.enabled, rfl, fun hprov => ?_⟩
    obtain ⟨s, hs, hheld⟩ := hup.unheld hprov
    exact ⟨s, hs.widen ha.before (.refl w'), ha.db ▸ hheld⟩
  rw [ha.db, Db.patched] at hdb
  cases hinv : patch.invalidating row with
  | false =>
      simp only [hinv, Bool.false_eq_true, if_false] at hdb
      exact .single (.exec _ (hA t _) hb hguard (by rw [hinv]; exact hdb))
  | true =>
      simp only [hinv, if_true] at hdb
      let mid : World := { w' with
        db := (Stmt.updateMember identity patch t true).apply w₀.db }
      have h₁ : Step env A w₀ mid :=
        .exec _ (hA t _) ⟨hb.ticks, hb.uuids⟩ (hguard.congr rfl rfl) (by rw [hinv])
      have h₂ : Step env A mid w' :=
        .exec (.clampLease identity t') (hc t') ⟨Nat.le_refl _, Nat.le_refl _⟩ trivial hdb
      exact .head h₁ (.single h₂)

/-- A loop of the sweep's updates. -/
theorem via_updates (hA : ∀ st, Stmt.Upkeep st → A st) {patch : Patch} (hp : patch.Sweeping)
    (l : List String) (w : World) : Via (Step env A) w (l.forM fun identity => do
      let _ ← update env identity patch none none) w := by
  refine Via.forM (fun _ _ => True) (fun identity _ w _ => ?_) (fun _ _ _ _ _ _ => trivial) l w
    trivial
  exact .bind (via_update (fun _ _ => hA _ hp) (fun _ => hA _ trivial) none none (.refl w))
    fun _ w' _ => via_return (.refl w')

/-- The lease ids still to be reclaimed name the members they named in the snapshot. -/
def SnapshotOf (l : List LeaseRow) (db : Db) : Prop :=
  ∀ lease ∈ l, ∀ x ∈ db.leases, x.leaseId = lease.leaseId →
    ∃ y ∈ db.leases, y.leaseId = lease.leaseId ∧ y.memberIdentity = lease.memberIdentity

theorem SnapshotOf.deleteLease {l : List LeaseRow} {db : Db} (h : SnapshotOf l db)
    (leaseId : String) : SnapshotOf l ((Stmt.deleteLease leaseId).apply db) := by
  intro lease hl x hx hid
  simp only [Stmt.apply, Db.deleteLeases, List.mem_filter, Bool.not_eq_true',
    decide_eq_false_iff_not] at hx ⊢
  obtain ⟨y, hy, hyid, hym⟩ := h lease hl x hx.1 hid
  exact ⟨y, ⟨hy, by rw [hyid, ← hid]; exact hx.2⟩, hyid, hym⟩

theorem via_reclaimLease (hA : ∀ st, Stmt.Upkeep st → A st) {lease : LeaseRow}
    {l : List LeaseRow} (hs : SnapshotOf (lease :: l) w.db) :
    Via (Step env A) w (reclaimLease env lease) w := by
  simp only [reclaimLease, via_hasHolds]
  split
  · exact via_return (World.Ahead.refl w).now
  rename_i hheld
  refine via_exec_bind (hA _ trivial) (World.Ahead.refl w).now ?_
    (via_recordEvent hA _ (.refl _))
  exact ⟨lease.memberIdentity, (World.Ahead.refl w).unheld env (by simpa using hheld),
    fun x hx hid => hs lease List.mem_cons_self x hx hid⟩

theorem SnapshotOf.reclaimLease {lease : LeaseRow} {l : List LeaseRow} {w' : World}
    (h : SnapshotOf (lease :: l) w.db) (hrun : reclaimLease env lease w = (.ok ⟨⟩, w')) :
    SnapshotOf l w'.db := by
  have htail : SnapshotOf l w.db := fun x hx => h x (List.mem_cons_of_mem _ hx)
  cases hheld : w.db.hasHolds lease.memberIdentity (env.clock w.ticks) with
  | true =>
      simp [Pool.reclaimLease, hasHolds, Tx.bind_run, hheld] at hrun
      rw [← hrun]
      exact htail
  | false =>
      obtain ⟨events, hev⟩ := recordEvent_run env
        { action := "lease_expired", identity := lease.memberIdentity,
          caller := lease.callerId, leaseId := lease.leaseId }
        { w with ticks := w.ticks + 1, db := (Stmt.deleteLease lease.leaseId).apply w.db }
      simp [Pool.reclaimLease, hasHolds, Tx.bind_run, hheld, hev] at hrun
      rw [← hrun]
      exact htail.deleteLease lease.leaseId

theorem via_reclaim (hA : ∀ st, Stmt.Upkeep st → A st) (ha : w.Ahead w₀) :
    Via (Step env A) w₀ (reclaim env) w := by
  refine via_transaction ha ?_
  simp only [via_now]
  have hpast : Past env { w with ticks := w.ticks + 1 } (env.clock w.ticks) :=
    ⟨w.ticks, Nat.lt_succ_self _, rfl⟩
  refine via_exec_bind (hA _ trivial) ha.now hpast ?_
  refine via_exec_bind (hA _ trivial) (.refl _) hpast ?_
  refine via_exec_bind (hA _ trivial) (.refl _) trivial ?_
  refine via_exec_bind (hA _ trivial) (.refl _) trivial ?_
  simp only [via_select]
  refine .bind (via_updates hA ⟨rfl, .inl rfl, rfl, rfl, rfl, rfl⟩ _ _) fun _ w₁ _ => ?_
  simp only [via_select]
  refine .bind (via_updates hA ⟨rfl, .inr rfl, rfl, rfl, rfl, rfl⟩ _ _)
    fun _ w₂ _ => ?_
  simp only [via_select]
  refine Via.forM (fun l w => SnapshotOf l w.db) (fun _ _ _ hs => via_reclaimLease hA hs)
    (fun _ _ _ _ hs hrun => hs.reclaimLease hrun) _ w₂ ?_
  intro lease hl x _ hid
  exact ⟨lease, List.mem_of_mem_filter hl, rfl, rfl⟩

theorem reclaim_steps {w' : World} (hrun : reclaim env w = (.ok ⟨⟩, w')) :
    Steps env Stmt.Upkeep w w' := by
  have hvia : Via (Step env Stmt.Upkeep) w (reclaim env) w := via_reclaim (fun _ h => h) (.refl w)
  rwa [Via, hrun] at hvia

end GhcpConsole.Pool
