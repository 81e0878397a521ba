import GhcpConsole.Lib.FixedWindow
import GhcpConsole.Pool.Generation

/-!
# Disabled members and the accounting of failures

`RowStep` says what a statement does to the columns of a member's row in which failures are
accounted: its state, its attempt, the number of attempts and the re-authorization window. From
it follow the three results. A disabled member stays disabled until `retry`, and no admission
finds it. The re-authorizations of a member are the uses of a `FixedWindow`, so three of them at
most fall in one window. And a member that has none left, like any exhausted member, is not
returned by `pending` again before `retry`: the attempt its row was given when it was blocked has
never been handed to a worker.
-/

namespace GhcpConsole.Pool

open Tx (Via Traces)

variable {env : Env} {A : Stmt → Prop} {w w' : World} {identity : String}

/-! ## One statement and one row -/

/-- The columns of a row in which failures are accounted. -/
structure Standing where
  state : MemberState
  attemptId : String
  attempts : Nat
  reauth : FixedWindow
deriving DecidableEq, Repr

def Inventory.reauth (m : Inventory) : FixedWindow := ⟨m.reauthWindowAt, m.reauthCount⟩

def Inventory.standing (m : Inventory) : Standing where
  state := m.state
  attemptId := m.attemptId
  attempts := m.attempts
  reauth := m.reauth

/-- What a statement does to the row `m` of a member. -/
inductive RowStep (identity : String) (m m' : Inventory) : Stmt → Prop
  | kept {st : Stmt} (h : m'.standing = m.standing) : RowStep identity m m' st
  | woken (t : Nat) (hc : m.state = .cooling)
      (h : m'.standing = { m.standing with state := .ready }) : RowStep identity m m' (.wakeCooled t)
  | updated (patch : Patch) (t : Nat) (b : Bool) (hs : m.state ≠ .disabled)
      (h : m'.standing = (patch.apply m).standing) : RowStep identity m m' (.updateMember identity patch t b)
  | counted (count windowAt : Nat)
      (h : m'.standing = { m.standing with reauth := ⟨windowAt, count⟩ }) :
      RowStep identity m m' (.setReauth identity count windowAt)
  | retried (attemptId : String) (stage : Stage) (t : Nat)
      (h : m'.standing
        = { m.standing with state := .provisioning, attempts := 0, attemptId := attemptId }) :
      RowStep identity m m' (.retryMember identity attemptId stage t)

/-- A rewrite of one row: the member's own, or another's. -/
theorem rowStep_mapMember {db : Db} {st : Stmt} {f : Inventory → Inventory} {target : String}
    {m : Inventory} (hf : ∀ m, (f m).identity = m.identity) (hm : db.inventory identity = some m)
    (hown : target = identity → RowStep identity m (f m) st) :
    ∃ m', (db.mapMember target f).inventory identity = some m' ∧ RowStep identity m m' st := by
  have hid : m.identity = identity := by simpa using List.find?_some hm
  have hfind : (db.mapMember target f).inventory identity = _ :=
    inventory_mapMember f hf target identity
  rw [hm, Option.map_some, hid] at hfind
  by_cases htarget : identity = target
  · exact ⟨f m, by rw [hfind, if_pos htarget], hown htarget.symm⟩
  · exact ⟨m, by rw [hfind, if_neg htarget], .kept rfl⟩

theorem rowStep_writeCredentials {db : Db} {st : Stmt} {target : String} {c : Credentials}
    {t : Nat} {m : Inventory} (hm : db.inventory identity = some m) :
    ∃ m', (db.writeCredentials target c t).inventory identity = some m' ∧ RowStep identity m m' st := by
  unfold Db.writeCredentials
  split
  · split
    · exact ⟨m, hm, .kept rfl⟩
    · exact rowStep_mapMember (fun _ => rfl) hm fun _ => .kept rfl
  · exact ⟨m, hm, .kept rfl⟩

/-- A row is never deleted, and a statement does to it what `RowStep` says. -/
theorem rowStep_apply {st : Stmt} (hg : st.Guard env w w') {m : Inventory}
    (hm : w.db.inventory identity = some m) :
    ∃ m', (st.apply w.db).inventory identity = some m' ∧ RowStep identity m m' st := by
  cases st with
  | updateMember target patch t b =>
      obtain ⟨row, hrow, hstate, -⟩ := hg
      refine rowStep_mapMember (fun _ => rfl) hm ?_
      rintro rfl
      obtain rfl := Option.some.inj (hm.symm.trans hrow)
      exact .updated patch t b hstate rfl
  | writeCredentials target c t => exact rowStep_writeCredentials hm
  | releaseReservation target stage =>
      exact rowStep_mapMember (fun _ => rfl) hm fun _ => .kept rfl
  | retryMember target attemptId stage t =>
      refine rowStep_mapMember (fun _ => rfl) hm ?_
      rintro rfl
      exact .retried attemptId stage t rfl
  | setReauth target count windowAt =>
      refine rowStep_mapMember (fun _ => rfl) hm ?_
      rintro rfl
      exact .counted count windowAt rfl
  | wakeCooled t =>
      refine ⟨_, (find?_map (fun m => by split <;> rfl) identity).trans (congrArg _ hm), ?_⟩
      dsimp only
      split
      · rename_i hcool
        exact .woken t hcool.1 rfl
      · exact .kept rfl
  | insertMember row =>
      have hfound : (w.db.inventory identity).isSome := by rw [hm]; rfl
      exact ⟨m, (List.find?_append.trans (Option.or_of_isSome hfound)).trans hm, .kept rfl⟩
  | deleteHold held =>
      refine ⟨m, ?_, .kept rfl⟩
      simp only [Stmt.apply]
      split <;> exact hm
  | _ => exact ⟨m, hm, .kept rfl⟩

/-! ## Disabled members -/

/-- The member is there and disabled. -/
def Db.Disabled (db : Db) (identity : String) : Prop :=
  ∃ m, db.inventory identity = some m ∧ m.state = .disabled

theorem Step.disabled (hstep : Step env A w w') (hA : ∀ a s t, ¬A (.retryMember identity a s t))
    (h : w.db.Disabled identity) : w'.db.Disabled identity := by
  cases hstep with
  | idle _ hdb => exact hdb ▸ h
  | exec st hst _ hg hdb =>
      obtain ⟨m, hm, hstate⟩ := h
      obtain ⟨m', hm', hrow⟩ := rowStep_apply hg hm
      refine ⟨m', hdb ▸ hm', ?_⟩
      cases hrow with
      | kept h => exact (congrArg Standing.state h).trans hstate
      | woken t hc h => rw [hstate] at hc; cases hc
      | updated patch t b hs h => exact absurd hstate hs
      | counted count windowAt h => exact (congrArg Standing.state h).trans hstate
      | retried attemptId stage t h => exact absurd hst (hA _ _ _)

/-- An operation other than `retry` leaves a disabled member disabled. -/
theorem step_disabled (op : Op) (hop : op ≠ .retry identity) (h : w.db.Disabled identity) :
    (step env w op).db.Disabled identity :=
  Steps.invariant (P := fun v => v.db.Disabled identity)
    (fun _ _ hstep hv => hstep.disabled (fun _ _ _ => hop) hv) (steps_of_step env w op) h

/-! ### No lease -/

/-- Every lease and catalog hold of the member is an old one, and no lease lasts longer. -/
structure Unleased (identity : String) (db db' : Db) : Prop where
  leases : ∀ l ∈ db'.leases, l.memberIdentity = identity → ∃ l₀ ∈ db.leases,
    l₀.leaseId = l.leaseId ∧ l₀.callerId = l.callerId ∧ l₀.memberIdentity = identity
      ∧ l.expiresAt ≤ l₀.expiresAt
  catalogHolds : ∀ c ∈ db'.catalogHolds, c.memberIdentity = identity → c ∈ db.catalogHolds

theorem Unleased.refl (identity : String) (db : Db) : Unleased identity db db :=
  ⟨fun l hl hid => ⟨l, hl, rfl, rfl, hid, Nat.le_refl _⟩, fun _ hc _ => hc⟩

theorem Unleased.trans {db₁ db₂ db₃ : Db} (h : Unleased identity db₁ db₂)
    (h' : Unleased identity db₂ db₃) : Unleased identity db₁ db₃ := by
  refine ⟨fun l hl hid => ?_, fun c hc hid => h.catalogHolds c (h'.catalogHolds c hc hid) hid⟩
  obtain ⟨l₁, hl₁, hid₁, hcaller₁, hmember₁, hle₁⟩ := h'.leases l hl hid
  obtain ⟨l₀, hl₀, hid₀, hcaller₀, hmember₀, hle₀⟩ := h.leases l₁ hl₁ hmember₁
  exact ⟨l₀, hl₀, hid₀.trans hid₁, hcaller₀.trans hcaller₁, hmember₀, Nat.le_trans hle₁ hle₀⟩

theorem not_leasable_of_disabled {db : Db} (h : db.Disabled identity) : ¬db.Leasable identity := by
  rintro ⟨⟨m, hm, hready, -⟩, -⟩
  obtain ⟨m', hm', hstate⟩ := h
  obtain rfl := Option.some.inj (hm.symm.trans hm')
  rw [hstate] at hready
  cases hready

/-- A lease row after a statement: an old one, cut short or renewed under a hold in force, or new. -/
theorem lease_apply {db : Db} {st : Stmt} {l : LeaseRow} (hl : l ∈ (st.apply db).leases) :
    (∃ l₀ ∈ db.leases, l₀.leaseId = l.leaseId ∧ l₀.callerId = l.callerId
        ∧ l₀.memberIdentity = l.memberIdentity
        ∧ (l.expiresAt ≤ l₀.expiresAt
          ∨ ∃ held t e, st = .renewLease held t e ∧ l.memberIdentity = held.memberIdentity))
      ∨ st = .insertLease l := by
  have hold : l ∈ db.leases → (∃ l₀ ∈ db.leases, l₀.leaseId = l.leaseId ∧ l₀.callerId = l.callerId
        ∧ l₀.memberIdentity = l.memberIdentity
        ∧ (l.expiresAt ≤ l₀.expiresAt
          ∨ ∃ held t e, st = .renewLease held t e ∧ l.memberIdentity = held.memberIdentity))
      ∨ st = .insertLease l :=
    fun h => .inl ⟨l, h, rfl, rfl, rfl, .inl (Nat.le_refl _)⟩
  cases st with
  | renewLease held t e =>
      obtain ⟨l₀, hl₀, rfl⟩ := List.mem_map.mp hl
      refine .inl ⟨l₀, hl₀, ?_⟩
      split
      · rename_i hmine
        exact ⟨rfl, rfl, rfl, .inr ⟨held, t, e, rfl, hmine.2.2.1⟩⟩
      · exact ⟨rfl, rfl, rfl, .inl (Nat.le_refl _)⟩
  | insertLease row =>
      rcases List.mem_append.mp hl with h | h
      · exact hold h
      · exact .inr (by rw [List.mem_singleton.mp h])
  | clampLease target t =>
      obtain ⟨l₀, hl₀, rfl⟩ := List.mem_map.mp hl
      refine .inl ⟨l₀, hl₀, ?_⟩
      split
      · exact ⟨rfl, rfl, rfl, .inl (Nat.min_le_left _ _)⟩
      · exact ⟨rfl, rfl, rfl, .inl (Nat.le_refl _)⟩
  | deleteLease leaseId => exact hold (List.mem_of_mem_filter hl)
  | deleteLeaseOf target => exact hold (List.mem_of_mem_filter hl)
  | writeCredentials target c t =>
      simp only [Stmt.apply, Db.writeCredentials] at hl
      split at hl
      · split at hl <;> exact hold hl
      · exact hold hl
  | deleteHold held =>
      simp only [Stmt.apply] at hl
      split at hl <;> exact hold hl
  | _ => exact hold hl

theorem Step.unleased (hstep : Step env A w w') (h : w.db.Disabled identity) :
    Unleased identity w.db w'.db := by
  cases hstep with
  | idle _ hdb => exact hdb ▸ Unleased.refl identity w.db
  | exec st _ _ hg hdb =>
      rw [hdb]
      refine ⟨fun l hl hid => ?_, fun c hc hid => ?_⟩
      · rcases lease_apply hl with ⟨l₀, hl₀, hlease, hcaller, hmember, hle | ⟨held, t, e, rfl, hheld⟩⟩ | rfl
        · exact ⟨l₀, hl₀, hlease, hcaller, hmember.trans hid, hle⟩
        · -- the renewal is under a hold in force, and the member is not in service
          obtain ⟨-, row, member, s, -, hforce⟩ := hg
          obtain ⟨m, hm, hstate⟩ := h
          have hrow := (heldRow_kind hforce.held).2
          have hmember := hforce.inventory
          rw [hrow, ← hheld, hid, hm] at hmember
          obtain rfl := Option.some.inj hmember
          have hserved := hforce.state
          simp [hstate] at hserved
        · exact absurd (hid ▸ hg.2.1) (not_leasable_of_disabled h)
      · rcases mem_catalogHolds_apply hc with hc | rfl
        · exact hc
        · exact absurd (hid ▸ hg.2.2.1) (not_leasable_of_disabled h)

theorem step_unleased (op : Op) (hop : op ≠ .retry identity) (h : w.db.Disabled identity) :
    Unleased identity w.db (step env w op).db := by
  have hkeep : ∀ v v', Step env op.permits v v' →
      v.db.Disabled identity ∧ Unleased identity w.db v.db →
      v'.db.Disabled identity ∧ Unleased identity w.db v'.db := by
    rintro v v' hstep ⟨hdis, hun⟩
    exact ⟨hstep.disabled (fun _ _ _ => hop) hdis, hun.trans (hstep.unleased hdis)⟩
  exact (Steps.invariant hkeep (steps_of_step env w op) ⟨h, .refl identity w.db⟩).2

/-- A hold leaves members and accounts as they are. -/
theorem hold_frame {lease : Lease} {kind : HoldKind} {timeoutMs : Nat} {held : HeldLease}
    (h : hold env lease kind timeoutMs w = (.ok held, w')) :
    held.memberIdentity = lease.memberIdentity ∧ w'.db.members = w.db.members
      ∧ w'.db.accounts = w.db.accounts := by
  rcases hm : w.db.inventory lease.memberIdentity with _ | m
  · simp [hold, Tx.bind_run, hm] at h
  cases kind with
  | lease | catalog =>
      simp [hold, Tx.bind_run, hm] at h
      obtain ⟨rfl, rfl⟩ := h
      exact ⟨rfl, rfl, rfl⟩

theorem hold_leasable {lease : Lease} {kind : HoldKind} {timeoutMs : Nat} {held : HeldLease}
    (h : hold env lease kind timeoutMs w = (.ok held, w'))
    (hl : w.db.Leasable lease.memberIdentity) : w'.db.Leasable held.memberIdentity := by
  obtain ⟨hmember, hmem, hacc⟩ := hold_frame h
  rw [hmember]
  exact hl.congr hmem hacc

theorem acquireBody_leasable {caller : String} {timeoutMs : Nat} {held : HeldLease}
    (h : acquireBody env caller timeoutMs w = (.ok held, w')) :
    w'.db.Leasable held.memberIdentity := by
  simp only [acquireBody, Tx.bind_eq_ok] at h
  obtain ⟨_, _, -, _, _, -, _, _, -, h⟩ := h
  split at h
  · simp only [Tx.bind_eq_ok] at h
    obtain ⟨_, v, hready, h⟩ := h
    split at h
    · simp [Tx.bind_run] at h
    · have ha := ahead_of_run (assertReady_reads _ _) hready
      exact hold_leasable h ((assertReady_ok hready).congr (congrArg Db.members ha.db)
        (congrArg Db.accounts ha.db))
  · simp only [Tx.bind_eq_ok] at h
    obtain ⟨_, _, -, _, v, hready, lease, v', hinsert, h⟩ := h
    have ha := ahead_of_run (assertReady_reads _ _) hready
    obtain ⟨-, hmember, hmem, hacc⟩ := insertLease_ok hinsert
    have hl := (assertReady_ok hready).congr (hmem.trans (congrArg Db.members ha.db))
      (hacc.trans (congrArg Db.accounts ha.db))
    exact hold_leasable h (hmember ▸ hl)

theorem acquireCatalogBody_leasable {caller : String} {held : HeldLease}
    (h : acquireCatalogBody env caller w = (.ok held, w')) :
    w'.db.Leasable held.memberIdentity := by
  simp only [acquireCatalogBody, Tx.bind_eq_ok] at h
  obtain ⟨_, _, -, existing, _, -, member, _, -, _, v, hready, h⟩ := h
  have ha := ahead_of_run (assertReady_reads _ _) hready
  have hl : v.db.Leasable member.identity := (assertReady_ok hready).congr
    (congrArg Db.members ha.db) (congrArg Db.accounts ha.db)
  split at h
  · rw [Tx.bind_ok (now_run env v)] at h
    split at h
    · simp [Tx.bind_run] at h
    · exact hold_leasable h hl
  · exact hold_leasable h hl

/-- The member an admission answers with is ready. -/
theorem admitted_leasable {op : Op} {held : HeldLease}
    (h : (op.exec env w).1 = .ok (.held held)) :
    (step env w op).db.Leasable held.memberIdentity := by
  obtain ⟨v, ⟨caller, timeoutMs, hbody⟩ | ⟨caller, hbody⟩⟩ := admitted_body h
  · exact acquireBody_leasable hbody
  · exact acquireCatalogBody_leasable hbody

theorem not_admitted_of_disabled {op : Op} (hop : op ≠ .retry identity) (h : w.db.Disabled identity)
    {held : HeldLease} (hheld : (op.exec env w).1 = .ok (.held held)) :
    held.memberIdentity ≠ identity := by
  rintro rfl
  exact not_leasable_of_disabled (step_disabled op hop h) (admitted_leasable hheld)

/-! ## Re-authorization -/

/-- The member's own row after `update` has written it. -/
theorem inventory_patched {db : Db} {patch : Patch} {row : Inventory} (t t' : Nat)
    (hrow : db.inventory identity = some row) :
    ∃ m', (db.patched identity patch row t t').inventory identity = some m'
      ∧ m'.standing = (patch.apply row).standing ∧ m'.retryAt = (patch.apply row).retryAt := by
  have hid : row.identity = identity := by simpa using List.find?_some hrow
  have hfind : ((Stmt.updateMember identity patch t (patch.invalidating row)).apply db).inventory
      identity = _ := (inventory_mapMember _ (by intro; rfl) identity identity).trans (congrArg _ hrow)
  rw [Option.map_some, if_pos hid] at hfind
  have hsame : (db.patched identity patch row t t').inventory identity
      = ((Stmt.updateMember identity patch t (patch.invalidating row)).apply db).inventory identity := by
    unfold Db.patched
    split <;> rfl
  exact ⟨_, hsame.trans hfind, rfl, rfl⟩

/-- An update without a fence that takes a member out of service writes its patch, unless the member
is disabled. -/
theorem update_retires {patch : Patch} {row : Inventory} (hrow : w.db.inventory identity = some row)
    (hs : row.state ≠ .disabled) (hp : patch.state = some .failed ∨ patch.state = some .disabled) :
    ∃ n t t', w.ticks < n ∧ update env identity patch none none w
      = (.ok true, { w with ticks := n, db := w.db.patched identity patch row t t' }) := by
  obtain ⟨n, t, t', hn, hrun⟩ := writePatch_run env identity patch row w
  have hpatch : patch ≠ {} := by
    rintro rfl
    rcases hp with h | h <;> cases h
  refine ⟨n, t, t', hn, ?_⟩
  rcases hp with hp | hp <;>
    simp [update, transaction, Tx.transaction, Tx.bind_run, hrow, hs, matchesFence, matchesOwner,
      hpatch, hp, hrun]

theorem updateAccount_run (identity : String) (cond : Credentials → Bool)
    (f : Credentials → Credentials) (t : Nat) (w : World) :
    updateAccount identity cond f t w = (.ok false, w)
    ∨ ∃ c, updateAccount identity cond f t w
        = (.ok true, { w with db := (Stmt.writeCredentials identity c t).apply w.db }) := by
  rcases hacc : w.db.account identity with _ | a
  · exact .inl (by simp [updateAccount, Tx.bind_run, hacc])
  · cases hcond : cond a.credentials with
    | false => exact .inl (by simp [updateAccount, Tx.bind_run, hacc, hcond])
    | true => exact .inr ⟨f a.credentials, by simp [updateAccount, Tx.bind_run, hacc, hcond]⟩

/-- The end of `recoverUnauthorized`: the update, the new window and the event. -/
theorem updateReauth_run {patch : Patch} {row : Inventory} (hrow : w.db.inventory identity = some row)
    (hs : row.state ≠ .disabled) (hp : patch.state = some .failed) (count windowAt : Nat)
    (fields : EventFields) :
    ∃ w' m', (do
        let _ ← update env identity patch none none
        exec (.setReauth identity count windowAt)
        recordEvent env fields
        pure true : StoreM Bool) w = (.ok true, w')
      ∧ w.Before w' ∧ w'.db.inventory identity = some m'
      ∧ m'.standing = { (patch.apply row).standing with reauth := ⟨windowAt, count⟩ }
      ∧ m'.retryAt = (patch.apply row).retryAt := by
  obtain ⟨n, t, t', hn, hupd⟩ : ∃ n t t', w.ticks < n ∧ update env identity patch none none w = _ :=
    update_retires hrow hs (.inl hp)
  obtain ⟨m₁, hm₁, hstanding, hretry⟩ := inventory_patched t t' hrow
  have hid : m₁.identity = identity := by simpa using List.find?_some hm₁
  have hfind : ((Stmt.setReauth identity count windowAt).apply
      (w.db.patched identity patch row t t')).inventory identity = _ :=
    (inventory_mapMember _ (by intro; rfl) identity identity).trans (congrArg _ hm₁)
  rw [Option.map_some, if_pos hid] at hfind
  obtain ⟨events, hev⟩ := recordEvent_run env fields { w with
    ticks := n
    db := (Stmt.setReauth identity count windowAt).apply (w.db.patched identity patch row t t') }
  refine ⟨{ w with
      ticks := n + 1
      db := { (Stmt.setReauth identity count windowAt).apply
        (w.db.patched identity patch row t t') with events := events } },
    { m₁ with reauthCount := count, reauthWindowAt := windowAt }, ?_,
    ⟨Nat.le_succ_of_le (Nat.le_of_lt hn), Nat.le_refl _⟩, hfind, ?_, hretry⟩
  · rw [Tx.bind_ok hupd, Tx.bind_ok (exec_run _ _), Tx.bind_ok hev, Tx.pure_run]
  · exact congrArg (fun s => { s with reauth := ⟨windowAt, count⟩ }) hstanding

/-- A use of the member's window at `t`. -/
def Inventory.useReauth (m : Inventory) (t : Nat) : WindowUse × FixedWindow :=
  m.reauth.use reauthMaxCycles reauthWindowMs t

theorem useReauth_eq (m : Inventory) (t : Nat) :
    let reset : Bool :=
      decide (m.reauthWindowAt = 0) || decide (reauthWindowMs ≤ t - m.reauthWindowAt)
    let count := if reset then 0 else m.reauthCount
    let start := if reset then t else m.reauthWindowAt
    m.useReauth t = (⟨t, start, !decide (reauthMaxCycles ≤ count)⟩,
      ⟨start, if reauthMaxCycles ≤ count then count else count + 1⟩) := by
  intro reset count start
  have hcurrent : m.reauth.current reauthWindowMs t = ⟨start, count⟩ := by
    rw [FixedWindow.current]
    by_cases hreset : m.reauth.start = 0 ∨ reauthWindowMs ≤ t - m.reauth.start
    · have h : reset = true := by simpa [reset, Inventory.reauth] using hreset
      rw [if_pos hreset]
      simp only [start, count, h, if_true]
    · have h : reset = false := by simpa [reset, Inventory.reauth] using hreset
      rw [if_neg hreset]
      simp only [start, count, h, Bool.false_eq_true, if_false]
      rfl
  simp only [Inventory.useReauth, FixedWindow.use, hcurrent]
  by_cases hfull : reauthMaxCycles ≤ count
  · simp [hfull]
  · simp [hfull]

/-- What `recoverUnauthorized` makes of a row when it answers `true`: it has used the member's window
once, at `t`, and has left the member to be worked on or out of attempts. -/
structure Reauthorized (env : Env) (w w' : World) (t : Nat) (m m' : Inventory) : Prop where
  state : m'.state = .failed
  attempts : m'.attempts = if (m.useReauth t).1.admitted then 0 else 3
  retryAt : m'.retryAt = t
  reauth : m'.reauth = (m.useReauth t).2
  attemptId : Drawn env w w' m'.attemptId

/-- `recoverUnauthorized` answers `true` and has used the window of a member in service, or it answers
`false` and has written nothing. -/
theorem recoverUnauthorized_cases (env : Env) (held : HeldLease) (token : String) (w : World) :
    (∃ w', recoverUnauthorized env held token w = (.ok false, w') ∧ w'.Ahead w)
    ∨ ∃ w' m m' t, recoverUnauthorized env held token w = (.ok true, w')
      ∧ w.db.inventory held.memberIdentity = some m ∧ (m.state = .ready ∨ m.state = .cooling)
      ∧ w'.db.inventory held.memberIdentity = some m' ∧ Reauthorized env w w' t m m' := by
  obtain ⟨res, w₁, hcur, ha₁, hforce⟩ := currentHold_cases env held w
  have hrefused : ∀ w', w'.Ahead w → recoverUnauthorized env held token w = (.ok false, w') →
      ∃ w', recoverUnauthorized env held token w = (.ok false, w') ∧ w'.Ahead w :=
    fun w' ha h => ⟨w', h, ha⟩
  rcases res with _ | row
  · refine .inl (hrefused w₁ ha₁ ?_)
    simp [recoverUnauthorized, transaction, Tx.transaction, Tx.bind_run, hcur]
  obtain ⟨m, s, -, hforce⟩ := hforce row rfl
  have hm := hforce.inventory
  rw [(heldRow_kind hforce.held).2] at hm
  have hm₁ : w₁.db.inventory held.memberIdentity = some m := ha₁.db ▸ hm
  have hs : m.state ≠ .disabled := by rcases hforce.state with h | h <;> simp [h]
  rcases updateAccount_run held.memberIdentity
      (fun c => c.token = some token && c.status = .valid)
      (fun c => { c with token := none, status := .expired, attemptId := none
                         oauthUpdatedAt := some (env.clock w₁.ticks) }) (env.clock w₁.ticks)
      { w₁ with ticks := w₁.ticks + 1 } with hinv | ⟨c, hinv⟩
  · refine .inl (hrefused _ ha₁.now ?_)
    simp [recoverUnauthorized, transaction, Tx.transaction, Tx.bind_run, hcur, hm₁, invalidateToken, hinv]
  · -- the fence has changed neither the row's state nor its window
    let w₂ : World := { w₁ with
      ticks := w₁.ticks + 1
      db := (Stmt.writeCredentials held.memberIdentity c (env.clock w₁.ticks)).apply w₁.db }
    obtain ⟨m₂, hm₂, hstanding⟩ : ∃ m₂, w₂.db.inventory held.memberIdentity = some m₂
        ∧ m₂.standing = m.standing := by
      obtain ⟨m₂, hm₂, hrow⟩ : ∃ m₂, w₂.db.inventory held.memberIdentity = some m₂
          ∧ RowStep held.memberIdentity m m₂ .trimEvents := rowStep_writeCredentials hm₁
      cases hrow with
      | kept h => exact ⟨m₂, hm₂, h⟩
    have hs₂ : m₂.state ≠ .disabled := fun h => hs ((congrArg Standing.state hstanding).symm.trans h)
    let w₃ : World := { w₂ with uuids := w₂.uuids + 1 }
    let t := env.clock w₁.ticks
    let reset : Bool :=
      decide (m.reauthWindowAt = 0) || decide (reauthWindowMs ≤ t - m.reauthWindowAt)
    let count := if reset then 0 else m.reauthCount
    have hp : ({ state := some .failed, stage := some .synced, attemptId := some (env.uuid w₂.uuids)
                 oauthAttemptId := some none, taskId := some none, verifiedAt := some none
                 attempts := some (if reauthMaxCycles ≤ count then 3 else 0)
                 lastError := some (some (if reauthMaxCycles ≤ count then
                   "oauth_reauth_limit_reached" else "upstream_unauthorized"))
                 retryAt := some t } : Patch).state = some .failed := rfl
    obtain ⟨w', m', hrun, hb, hm', hstanding', hretry⟩ := updateReauth_run (w := w₃) hm₂ hs₂ hp (if reauthMaxCycles ≤ count then count else count + 1)
      (if reset then t else m.reauthWindowAt) _
    refine .inr ⟨w', m, m', env.clock w₁.ticks, Tx.transaction_eq_ok.mpr ?_, hm, hforce.state, hm', ?_⟩
    · rw [Tx.bind_ok hcur]
      simp only [Option.isNone_some, Bool.false_eq_true, if_false]
      rw [Tx.bind_ok (select_run _ _)]
      simp only [hm₁]
      rw [Tx.bind_ok (now_run env w₁)]
      rw [invalidateToken, Tx.bind_ok hinv]
      simp only [Bool.not_true, Bool.false_eq_true, if_false]
      rw [Tx.bind_ok (randomUuid_run env _)]
      exact hrun
    · have hstate := congrArg Standing.state hstanding'
      have hattempts := congrArg Standing.attempts hstanding'
      have hattempt := congrArg Standing.attemptId hstanding'
      have hreauth := congrArg Standing.reauth hstanding'
      have huse := useReauth_eq m t
      refine ⟨hstate, ?_, hretry, ?_, ⟨w₂.uuids, ?_, ?_, hattempt.symm⟩⟩
      · rw [huse]
        refine hattempts.trans ?_
        dsimp only [Patch.apply, Inventory.standing, Option.getD_some]
        by_cases hfull : reauthMaxCycles ≤ count
        · rw [if_pos hfull, decide_eq_true hfull]
          rfl
        · rw [if_neg hfull, decide_eq_false hfull]
          rfl
      · rw [huse]
        exact hreauth
      · exact ha₁.before.uuids
      · exact Nat.lt_of_lt_of_le (Nat.lt_succ_self w₂.uuids) hb.uuids

/-- What an answered `recoverUnauthorized` of the member has left in its row. -/
def Op.reauthorization (env : Env) (identity : String) (w : World) : Op → Option WindowUse
  | .recoverUnauthorized held token =>
      match Pool.recoverUnauthorized env held token w with
      | (.ok true, w') =>
          if held.memberIdentity = identity then
            (w'.db.inventory identity).map fun m => ⟨m.retryAt, m.reauthWindowAt, m.attempts < 3⟩
          else none
      | _ => none
  | _ => none

/-- The re-authorizations of the member along a run. -/
def reauthorizations (env : Env) (identity : String) : World → List Op → List WindowUse
  | _, [] => []
  | w, op :: ops =>
      (op.reauthorization env identity w).toList ++ reauthorizations env identity (step env w op) ops

/-- The member's window; a member that is not there yet will have none open. -/
def Db.reauth (db : Db) (identity : String) : FixedWindow :=
  ((db.inventory identity).map Inventory.reauth).getD ⟨0, 0⟩

/-- A member that is not there stays away, or is inserted with a new attempt. -/
theorem inventory_apply_none {st : Stmt} (hg : st.Guard env w w')
    (h : w.db.inventory identity = none) :
    (st.apply w.db).inventory identity = none
      ∨ ∃ row, (st.apply w.db).inventory identity = some row ∧ row.reauth = ⟨0, 0⟩
          ∧ Drawn env w w' row.attemptId := by
  rcases apply_members w.db st with ⟨f, hf, hmap⟩ | ⟨row, rfl, happ⟩
  · refine .inl ?_
    have hfind : (w.db.members.map f).find? (fun m => m.identity = identity) = _ :=
      find?_map hf.identity identity
    rw [Db.inventory, hmap, hfind]
    exact congrArg _ h
  · rw [Db.inventory, happ, List.find?_append, show w.db.members.find? _ = none from h,
      Option.none_or]
    by_cases hid : row.identity = identity
    · obtain ⟨-, -, -, -, -, attemptId, t, hdrawn, hrow⟩ := hg
      exact .inr ⟨row, by simp [hid], by rw [hrow]; rfl, by rw [hrow]; exact hdrawn⟩
    · exact .inl (by simp [hid])

/-- Nothing but `recoverUnauthorized` touches the window. -/
theorem Step.reauth (hstep : Step env A w w') (hA : ∀ n t, ¬A (.setReauth identity n t)) :
    w'.db.reauth identity = w.db.reauth identity := by
  cases hstep with
  | idle _ hdb => rw [hdb]
  | exec st hst _ hg hdb =>
      rw [hdb, Db.reauth, Db.reauth]
      rcases hm : w.db.inventory identity with _ | m
      · rcases inventory_apply_none hg hm with h | ⟨row, h, hreauth, -⟩
        · rw [h]
        · rw [h]
          exact hreauth
      · obtain ⟨m', hm', hrow⟩ := rowStep_apply hg hm
        rw [hm']
        cases hrow with
        | kept h => exact congrArg Standing.reauth h
        | woken t hc h => exact congrArg Standing.reauth h
        | updated patch t b hs h => exact congrArg Standing.reauth h
        | counted count windowAt h => exact absurd hst (hA _ _)
        | retried attemptId stage t h => exact congrArg Standing.reauth h

/-- One operation uses the member's window once or leaves it as it is. -/
theorem step_reauth (env : Env) (identity : String) (w : World) (op : Op) :
    (op.reauthorization env identity w = none
        ∧ (step env w op).db.reauth identity = w.db.reauth identity)
    ∨ ∃ t, let use := (w.db.reauth identity).use reauthMaxCycles reauthWindowMs t
        op.reauthorization env identity w = some use.1
          ∧ (step env w op).db.reauth identity = use.2 := by
  by_cases hrecover : ∃ held token, op = .recoverUnauthorized held token
      ∧ held.memberIdentity = identity
  · obtain ⟨held, token, rfl, rfl⟩ := hrecover
    rw [step, Op.exec, reply_run]
    rcases recoverUnauthorized_cases env held token w with
      ⟨w', hrun, ha⟩ | ⟨w', m, m', t, hrun, hm, -, hm', hre⟩
    · refine .inl ⟨by simp [Op.reauthorization, hrun], ?_⟩
      rw [hrun, Db.reauth, Db.reauth, ha.db]
    · have hwindow : w.db.reauth held.memberIdentity = m.reauth := by rw [Db.reauth, hm]; rfl
      refine .inr ⟨t, ?_, ?_⟩
      · have huse : (⟨m'.retryAt, m'.reauthWindowAt, decide (m'.attempts < 3)⟩ : WindowUse)
            = (m.useReauth t).1 := by
          have hstart := congrArg FixedWindow.start hre.reauth
          rw [Inventory.useReauth, ← FixedWindow.use_window] at hstart
          refine WindowUse.ext (hre.retryAt.trans (FixedWindow.use_at _ _).symm) hstart ?_
          rw [hre.attempts]
          cases (m.useReauth t).1.admitted <;> rfl
        simp only [Op.reauthorization, hrun, hm', if_true, Option.map_some]
        rw [huse, hwindow]
        rfl
      · rw [hrun, Db.reauth, hm', hwindow]
        exact hre.reauth
  · refine .inl ⟨?_, ?_⟩
    · cases op with
      | recoverUnauthorized held token =>
          have hne : held.memberIdentity ≠ identity := fun h => hrecover ⟨held, token, rfl, h⟩
          simp only [Op.reauthorization, if_neg hne]
          split <;> rfl
      | _ => rfl
    · exact Steps.invariant (P := fun v => v.db.reauth identity = w.db.reauth identity)
        (fun _ _ hstep hv => (hstep.reauth fun _ _ h => hrecover h).trans hv)
        (steps_of_step env w op) rfl

/-- The re-authorizations of a run are the log of the member's window. -/
theorem reauthorizations_eq_log (env : Env) (identity : String) (w : World) (ops : List Op) :
    reauthorizations env identity w ops
      = (w.db.reauth identity).log reauthMaxCycles reauthWindowMs
          ((reauthorizations env identity w ops).map (·.at_)) := by
  induction ops generalizing w with
  | nil => rfl
  | cons op ops ih =>
      rw [reauthorizations]
      rcases step_reauth env identity w op with ⟨hnone, hwindow⟩ | ⟨t, hsome, hwindow⟩
      · rw [hnone, ← hwindow]
        exact ih (step env w op)
      · have hrest := ih (step env w op)
        rw [hwindow] at hrest
        rw [hsome, Option.toList_some, List.singleton_append, List.map_cons, FixedWindow.log,
          FixedWindow.use_at, ← hrest]

/-! ## Exhausted members -/

/-- The member is there and exhausted. -/
def Db.Exhausted (db : Db) (identity : String) : Prop :=
  ∃ m, db.inventory identity = some m ∧ exhausted m = true

/-- The statement brings no exhausted member back to work. -/
def Stmt.KeepsOut (identity : String) : Stmt → Prop
  | .updateMember i patch _ _ => i = identity → patch.KeepsOut
  | .retryMember i _ _ _ => i ≠ identity
  | _ => True

theorem exhausted_congr {m m' : Inventory} (hstate : m'.state = m.state)
    (hattempts : m'.attempts = m.attempts) : exhausted m' = exhausted m := by
  simp only [exhausted, hstate, hattempts]

theorem Step.exhausted (hstep : Step env A w w') (hA : ∀ st, A st → st.KeepsOut identity)
    (h : w.db.Exhausted identity) : w'.db.Exhausted identity := by
  cases hstep with
  | idle _ hdb => exact hdb ▸ h
  | exec st hst _ hg hdb =>
      obtain ⟨m, hm, hex⟩ := h
      obtain ⟨m', hm', hrow⟩ := rowStep_apply hg hm
      refine ⟨m', hdb ▸ hm', ?_⟩
      have hkeep := hA st hst
      have hsame : ∀ {s : Standing}, m'.standing = s → s.state = m.state →
          s.attempts = m.attempts → Pool.exhausted m' = true := by
        intro s h hstate hattempts
        rw [exhausted_congr ((congrArg Standing.state h).trans hstate)
          ((congrArg Standing.attempts h).trans hattempts)]
        exact hex
      cases hrow with
      | kept h => exact hsame h rfl rfl
      | woken t hc h => rw [not_exhausted_of_served (.inr hc)] at hex; cases hex
      | updated patch t b hs h =>
          rw [exhausted_congr (congrArg Standing.state h) (congrArg Standing.attempts h)]
          exact hkeep rfl m hs hex
      | counted count windowAt h => exact hsame h rfl rfl
      | retried attemptId stage t h => exact absurd rfl hkeep

theorem Patch.Sweeping.keepsOut {p : Patch} (hp : p.Sweeping) : p.KeepsOut := by
  intro m hs hex
  simp only [exhausted, hs, decide_false, Bool.false_or, Bool.and_eq_true, decide_eq_true_eq] at hex
  simp [exhausted, Patch.apply, hp.state, hp.attempts, hex.2]

theorem keepsOut_of_upkeep {st : Stmt} (h : st.Upkeep) : st.KeepsOut identity := by
  cases st with
  | updateMember i patch t b => exact fun _ => Patch.Sweeping.keepsOut h
  | retryMember i a s t => exact h.elim
  | _ => trivial

/-- The attempts that workers have been given, with their members. -/
abbrev Given : Type := String → String → Prop

/-- A checkpoint comes from a worker: it is fenced by the attempt the worker was given for the member,
and does not replace that attempt. -/
def Op.Worked (given : Given) : Op → Prop
  | .update identity patch expected _ =>
      patch.attemptId = none ∧ ∃ attemptId generation stage,
        expected = some (.snapshot attemptId generation stage) ∧ given identity attemptId
  | _ => True

/-- `pending` gives the attempt of the row it returns. -/
def Op.gives (env : Env) (w : World) (op : Op) : Given := fun identity attemptId =>
  ∃ excluded row, op = .pending excluded ∧ (op.exec env w).1 = .ok (.row (some row))
    ∧ row.identity = identity ∧ row.attemptId = attemptId

/-- Every checkpoint of the run comes from a worker. -/
def WorkedRun (env : Env) : Given → World → List Op → Prop
  | _, _, [] => True
  | given, w, op :: ops => op.Worked given
      ∧ WorkedRun env (fun i a => given i a ∨ op.gives env w i a) (step env w op) ops

/-- An exhausted member whose attempt no worker was given stays exhausted until `retry`. -/
theorem step_exhausted {given : Given} {op : Op} (hop : op ≠ .retry identity)
    (hworked : op.Worked given) {m : Inventory} (hm : w.db.inventory identity = some m)
    (hex : exhausted m = true) (hgiven : ¬given identity m.attemptId) :
    (step env w op).db.Exhausted identity := by
  have hstart : w.db.Exhausted identity := ⟨m, hm, hex⟩
  have hsteps : ∀ {α : Type} {p : StoreM α}, Via (Step env (Stmt.KeepsOut identity)) w p w →
      (p w).2.db.Exhausted identity := fun hvia =>
    Steps.invariant (P := fun v => v.db.Exhausted identity)
      (fun _ _ hstep hv => hstep.exhausted (fun _ h => h) hv) hvia hstart
  have hup : ∀ st, Stmt.Upkeep st → st.KeepsOut identity := fun _ => keepsOut_of_upkeep
  have hretiring : ∀ {i : String} {patch : Patch} t b, patch.Retiring w.db i →
      (Stmt.updateMember i patch t b).KeepsOut identity := by
    rintro i patch t b hp rfl
    exact hp.keepsOut m hm hex
  have ha := World.Ahead.refl w
  by_cases hretires : ∃ i, op.Retires i
  · -- these operations look at the row before they write it
    cases op with
    | cool i seconds held =>
        rw [step, Op.exec, reply_run]
        exact hsteps (via_cool hup (fun _ t b hp _ => hretiring t b hp) (fun _ => trivial) ha)
    | quarantine i code held =>
        rw [step, Op.exec, reply_run]
        exact hsteps (via_quarantine hup (fun _ t b hp _ => hretiring t b hp) ha)
    | fail i code expected owner terminal =>
        rw [step, Op.exec, reply_run]
        exact hsteps (via_fail hup (fun _ t b hp _ => hretiring t b hp) ha)
    | disable i =>
        rw [step, Op.exec, reply_run]
        exact hsteps (via_disable hup (fun _ t b hp => hretiring t b hp) trivial ha)
    | recoverUnauthorized held token =>
        rw [step, Op.exec, reply_run]
        exact hsteps (via_recoverUnauthorized hup (fun _ t b hp => hretiring t b hp)
          (fun _ _ => trivial) (fun _ _ => trivial) ha)
    | _ => exact absurd hretires (by rintro ⟨_, h⟩; exact h)
  by_cases hupdate : ∃ patch expected owner, op = .update identity patch expected owner
  · -- the fence is of another attempt
    obtain ⟨patch, expected, owner, rfl⟩ := hupdate
    obtain ⟨-, attemptId, generation, stage, rfl, hof⟩ := hworked
    rw [step, Op.exec, reply_run]
    rcases update_cases env identity patch (some (.snapshot attemptId generation stage)) owner w with
      ⟨b, w', hrun, ha', -⟩ | ⟨w', row, hrun, hup⟩
    · rw [hrun, Db.Exhausted, ha'.db]
      exact hstart
    · obtain rfl := Option.some.inj (hm.symm.trans hup.inventory)
      have hfence := hup.fence
      simp only [matchesFence, Bool.and_eq_true, decide_eq_true_eq] at hfence
      exact absurd (hfence.1.1 ▸ hof) hgiven
  · refine Steps.invariant (P := fun v => v.db.Exhausted identity)
      (fun v v' hstep hv => hstep.exhausted (fun st hst => ?_) hv) (steps_of_step env w op) hstart
    cases st with
    | updateMember i patch t b =>
        rintro rfl
        rcases hst with hsweep | ⟨hret, -⟩ | ⟨expected, owner, heq⟩ | ⟨_, _, _, -, rfl⟩
        · exact hsweep.keepsOut
        · exact absurd ⟨_, hret⟩ hretires
        · exact absurd ⟨_, _, _, heq⟩ hupdate
        · intro m _ hex
          exact hex
    | retryMember i a s t =>
        rintro rfl
        exact hop hst
    | _ => trivial

/-! ## Attempts -/

/-- `disable` starts a new attempt, or writes nothing. -/
theorem disable_cases (env : Env) (identity : String) (w : World) :
    ((disable env identity w).2.Ahead w)
    ∨ ∃ m', (disable env identity w).2.db.inventory identity = some m'
      ∧ Drawn env w (disable env identity w).2 m'.attemptId := by
  rcases hrow : w.db.inventory identity with _ | row
  · refine .inl ?_
    rw [show disable env identity w = (.error (.pool 404 "member_not_found" 0), w) by
      simp [disable, transaction, Tx.transaction, Tx.bind_run, hrow, World.rollback]]
    exact .refl w
  by_cases hs : row.state = .disabled
  · refine .inl ?_
    rw [show disable env identity w = (.ok (), w) by
      simp [disable, transaction, Tx.transaction, Tx.bind_run, hrow, hs]]
    exact .refl w
  let patch : Patch := { state := some .disabled, attemptId := some (env.uuid w.uuids) }
  let w₁ : World := { w with uuids := w.uuids + 1 }
  obtain ⟨n, t, t', hn, hupd⟩ : ∃ n t t', w₁.ticks < n ∧ update env identity patch none none w₁
      = (.ok true, { w₁ with ticks := n, db := w₁.db.patched identity patch row t t' }) :=
    update_retires hrow hs (.inr rfl)
  obtain ⟨m₁, hm₁, hstanding, -⟩ : ∃ m', (w₁.db.patched identity patch row t t').inventory identity
      = some m' ∧ m'.standing = (patch.apply row).standing ∧ _ := inventory_patched t t' hrow
  obtain ⟨w₂, hrel, hb, hdb⟩ := releaseInactive_cases env identity
    { w₁ with ticks := n, db := w₁.db.patched identity patch row t t' }
  obtain ⟨events, hev⟩ := recordEvent_run env
    { action := "member_disabled", identity := identity } w₂
  have hrun : disable env identity w
      = (.ok (), { w₂ with ticks := w₂.ticks + 1, db := { w₂.db with events := events } }) := by
    refine Tx.transaction_eq_ok.mpr ?_
    rw [Tx.bind_ok (select_run _ _)]
    simp only [hrow, if_neg hs]
    rw [Tx.bind_ok (randomUuid_run env w), Tx.bind_ok hupd, Tx.bind_ok hrel]
    exact hev
  refine .inr ⟨m₁, ?_, w.uuids, Nat.le_refl _, ?_, ?_⟩
  · rw [hrun]
    rcases hdb with hdb | hdb <;> (change w₂.db.inventory identity = _; rw [hdb]; exact hm₁)
  · rw [hrun]
    exact hb.uuids
  · exact (congrArg Standing.attemptId hstanding).symm

/-- The attempt of a row is one that the member had in `w`, or has been drawn since. -/
def AttemptFrom (env : Env) (w v : World) (identity : String) : Prop :=
  ∀ m', v.db.inventory identity = some m' →
    (∃ m, w.db.inventory identity = some m ∧ m'.attemptId = m.attemptId)
      ∨ Drawn env w v m'.attemptId

theorem AttemptFrom.refl (env : Env) (w : World) (identity : String) :
    AttemptFrom env w w identity := fun m hm => .inl ⟨m, hm, rfl⟩

theorem Step.attemptFrom {v v' : World} (hstep : Step env A v v')
    (hA : ∀ patch t b, A (.updateMember identity patch t b) → patch.attemptId = none)
    (hb : w.Before v) (h : AttemptFrom env w v identity) : AttemptFrom env w v' identity := by
  have hb' := hstep.before
  intro m' hm'
  cases hstep with
  | idle _ hdb => exact (h m' (hdb ▸ hm')).imp_right fun hd => hd.widen (.refl w) hb'
  | exec st hst _ hg hdb =>
      rw [hdb] at hm'
      rcases hm : v.db.inventory identity with _ | m
      · rcases inventory_apply_none hg hm with hnone | ⟨row, hrow, -, hdrawn⟩
        · rw [hnone] at hm'
          cases hm'
        · obtain rfl := Option.some.inj (hrow.symm.trans hm')
          exact .inr (hdrawn.widen hb (.refl _))
      · obtain ⟨m₁, hm₁, hrow⟩ := rowStep_apply hg hm
        obtain rfl := Option.some.inj (hm₁.symm.trans hm')
        have hsame : m₁.attemptId = m.attemptId →
            (∃ m, w.db.inventory identity = some m ∧ m₁.attemptId = m.attemptId)
              ∨ Drawn env w v' m₁.attemptId := by
          intro heq
          rw [heq]
          exact (h m hm).imp_right fun hd => hd.widen (.refl w) hb'
        cases hrow with
        | kept h => exact hsame (congrArg Standing.attemptId h)
        | woken t hc h => exact hsame (congrArg Standing.attemptId h)
        | updated patch t b hs h =>
            refine hsame ((congrArg Standing.attemptId h).trans ?_)
            simp [Inventory.standing, Patch.apply, hA patch t b hst]
        | counted count windowAt h => exact hsame (congrArg Standing.attemptId h)
        | retried attemptId stage t h =>
            rw [show m₁.attemptId = attemptId from congrArg Standing.attemptId h]
            exact .inr (hg.1.widen hb (.refl _))

/-- An operation leaves a member in the attempt it was in, or starts a new one. -/
theorem step_attemptFrom {given : Given} (env : Env) (w : World) {op : Op}
    (hworked : op.Worked given) (identity : String) :
    AttemptFrom env w (step env w op) identity := by
  have hsteps : (∀ patch t b, op.permits (.updateMember identity patch t b) →
      patch.attemptId = none) → AttemptFrom env w (step env w op) identity := by
    intro hA
    have hkeep : ∀ v v', Step env op.permits v v' → w.Before v ∧ AttemptFrom env w v identity →
        w.Before v' ∧ AttemptFrom env w v' identity :=
      fun v v' hstep hv => ⟨hv.1.trans hstep.before, hstep.attemptFrom hA hv.1 hv.2⟩
    exact (Steps.invariant hkeep (steps_of_step env w op) ⟨.refl w, .refl env w identity⟩).2
  by_cases hrenames : op.Renames identity
  · cases op with
    | disable i =>
        obtain rfl : i = identity := hrenames
        rw [step, Op.exec, reply_run]
        rcases disable_cases env i w with ha | ⟨m', hm', hdrawn⟩
        · intro m hm
          exact .inl ⟨m, ha.db ▸ hm, rfl⟩
        · intro m hm
          obtain rfl := Option.some.inj (hm'.symm.trans hm)
          exact .inr hdrawn
    | recoverUnauthorized held token =>
        obtain rfl : held.memberIdentity = identity := hrenames
        rw [step, Op.exec, reply_run]
        rcases recoverUnauthorized_cases env held token w with
          ⟨w', hrun, ha⟩ | ⟨w', _, m', t, hrun, -, -, hm', hre⟩
        · intro m hm
          rw [hrun] at hm ⊢
          exact .inl ⟨m, ha.db ▸ hm, rfl⟩
        · intro m hm
          rw [hrun] at hm ⊢
          obtain rfl := Option.some.inj (hm'.symm.trans hm)
          exact .inr hre.attemptId
    | _ => exact hrenames.elim
  · refine hsteps fun patch t b hst => ?_
    rcases hst with hsweep | ⟨-, -, hattempt | hren⟩ | ⟨expected, owner, rfl⟩ | ⟨_, _, _, -, rfl⟩
    · exact hsweep.attemptId
    · exact hattempt
    · exact absurd hren hrenames
    · exact hworked.1
    · rfl

/-! ## Pending -/

/-- `pending` returns a row of a swept store that may be worked on. -/
theorem pending_ok {excluded : List String} {row : Inventory}
    (h : ((Op.pending excluded).exec env w).1 = .ok (.row (some row))) :
    ∃ v t, Steps env Stmt.Upkeep w v ∧ v.Before (step env w (.pending excluded))
      ∧ row ∈ v.db.members
      ∧ pendingEligible v.db t excluded (env.options.loginMaxPending.getD 5) row = true := by
  have hexec : (Op.pending excluded).exec env w
      = (.ok (.row (some row)), step env w (.pending excluded)) := Prod.ext h rfl
  generalize step env w (.pending excluded) = w' at *
  obtain ⟨row', v, hpending, hreply⟩ := Tx.bind_eq_ok.mp hexec
  obtain ⟨rfl, rfl⟩ : row' = some row ∧ v = w' := by simpa using hreply
  obtain ⟨selections, w₁, hread, hpending⟩ := Tx.bind_eq_ok.mp hpending
  obtain ⟨rfl, rfl⟩ := by simpa using hread
  obtain ⟨row', w₂, hpick, hpending⟩ := Tx.bind_eq_ok.mp hpending
  obtain ⟨rfl, hv⟩ : row' = some row ∧ v = { w₂ with selections := (w₂.selections + 1) % 4 } := by
    cases row' with
    | none => simp at hpending
    | some r =>
        simp only [Option.isSome_some, if_true, Tx.bind_run, Tx.write_run, Tx.pure_run,
          Prod.mk.injEq, Except.ok.injEq] at hpending
        exact ⟨hpending.1, hpending.2.symm⟩
  obtain ⟨_, v₁, hreclaim, hpick⟩ := Tx.bind_eq_ok.mp (Tx.transaction_eq_ok.mp hpick)
  rw [Tx.bind_ok (select_run _ _)] at hpick
  split at hpick
  · simp at hpick
  · rw [Tx.bind_ok (now_run env v₁)] at hpick
    obtain ⟨hhead, rfl⟩ := by simpa using hpick
    have hmem := mem_orderBy.mp (List.mem_of_mem_head? hhead)
    refine ⟨v₁, _, reclaim_steps hreclaim, ?_, List.mem_of_mem_filter hmem,
      (List.mem_filter.mp hmem).2⟩
    rw [hv]
    exact ⟨Nat.le_succ _, Nat.le_refl _⟩

/-- No sweep brings an exhausted member back, and an exhausted member is not eligible. -/
theorem not_pending_of_exhausted (hI : w.db.Integrity) (h : w.db.Exhausted identity)
    {excluded : List String} {row : Inventory}
    (hrow : ((Op.pending excluded).exec env w).1 = .ok (.row (some row))) :
    row.identity ≠ identity := by
  rintro rfl
  obtain ⟨v, t, hsteps, -, hmem, heligible⟩ := pending_ok hrow
  have hIv : v.db.Integrity := hsteps.invariant (fun _ _ hstep h => hstep.integrity h) hI
  obtain ⟨m, hm, hex⟩ := Steps.invariant (P := fun v => v.db.Exhausted row.identity)
    (fun _ _ hstep hv => hstep.exhausted (fun _ => keepsOut_of_upkeep) hv) hsteps h
  have hfound := hIv.members.find? hmem
  obtain rfl := Option.some.inj (hfound.symm.trans hm)
  simp only [pendingEligible, Bool.and_eq_true, Bool.or_eq_true, decide_eq_true_eq] at heligible
  simp only [exhausted, Bool.or_eq_true, Bool.and_eq_true, decide_eq_true_eq] at hex
  rcases hex with hs | ⟨hs, hatt⟩ <;> simp [hs] at heligible
  omega

/-! ## Runs -/

/-- No UUID still to be drawn is the attempt of a row or one that a worker was given. -/
structure Undrawn (env : Env) (given : Given) (w : World) : Prop where
  rows : ∀ identity m, w.db.inventory identity = some m →
    ∀ n, w.uuids ≤ n → env.uuid n ≠ m.attemptId
  given : ∀ identity attemptId, given identity attemptId →
    ∀ n, w.uuids ≤ n → env.uuid n ≠ attemptId

/-- What `op` adds to the attempts that workers have been given. -/
def Given.after (given : Given) (env : Env) (w : World) (op : Op) : Given :=
  fun identity attemptId => given identity attemptId ∨ op.gives env w identity attemptId

theorem Undrawn.attemptFrom {given : Given} {v : World} (h : Undrawn env given w)
    (hfrom : AttemptFrom env w v identity) (hb : w.Before v) {m : Inventory}
    (hm : v.db.inventory identity = some m) : ∀ n, v.uuids ≤ n → env.uuid n ≠ m.attemptId := by
  intro n hn
  rcases hfrom m hm with ⟨m₀, hm₀, hsame⟩ | ⟨k, -, hk, hdrawn⟩
  · rw [hsame]
    exact h.rows identity m₀ hm₀ n (Nat.le_trans hb.uuids hn)
  · intro heq
    have hkn := env.uuid_inj (hdrawn.trans heq.symm)
    omega

theorem step_undrawn {given : Given} {op : Op} (hI : w.db.Integrity) (hworked : op.Worked given)
    (h : Undrawn env given w) : Undrawn env (given.after env w op) (step env w op) := by
  have hb : w.Before (step env w op) := (steps_of_step env w op).before
  refine ⟨fun identity m hm => h.attemptFrom (step_attemptFrom env w hworked identity) hb hm, ?_⟩
  rintro identity attemptId (hgiven | ⟨excluded, row, rfl, hrow, rfl, rfl⟩) n hn
  · exact h.given identity attemptId hgiven n (Nat.le_trans hb.uuids hn)
  · obtain ⟨v, t, hsteps, hbv, hmem, -⟩ := pending_ok hrow
    have hkeep : ∀ u u', Step env Stmt.Upkeep u u' →
        w.Before u ∧ AttemptFrom env w u row.identity →
        w.Before u' ∧ AttemptFrom env w u' row.identity := fun u u' hstep hu =>
      ⟨hu.1.trans hstep.before, hstep.attemptFrom (fun _ _ _ hp => hp.attemptId) hu.1 hu.2⟩
    have hfrom := (Steps.invariant hkeep hsteps ⟨.refl w, .refl env w row.identity⟩).2
    have hIv : v.db.Integrity := hsteps.invariant (fun _ _ hstep h => hstep.integrity h) hI
    exact h.attemptFrom hfrom hsteps.before (hIv.members.find? hmem) n
      (Nat.le_trans hbv.uuids hn)

/-- The member is out of attempts, and the attempt it is in was not given to any worker. -/
structure Blocked (env : Env) (given : Given) (identity : String) (w : World) : Prop where
  integrity : w.db.Integrity
  undrawn : Undrawn env given w
  member : ∃ m, w.db.inventory identity = some m ∧ exhausted m = true
    ∧ ¬given identity m.attemptId

theorem step_blocked {given : Given} {op : Op} (hop : op ≠ .retry identity)
    (hworked : op.Worked given) (h : Blocked env given identity w) :
    Blocked env (given.after env w op) identity (step env w op) := by
  obtain ⟨m, hm, hex, hgiven⟩ := h.member
  obtain ⟨m', hm', hex'⟩ := step_exhausted hop hworked hm hex hgiven
  refine ⟨run_integrity env h.integrity [op], step_undrawn h.integrity hworked h.undrawn,
    m', hm', hex', ?_⟩
  rintro (hgiven' | ⟨excluded, row, rfl, hrow, hid, -⟩)
  · rcases step_attemptFrom env w hworked identity m' hm' with ⟨m₀, hm₀, hsame⟩ | ⟨n, hn, -, hdrawn⟩
    · obtain rfl := Option.some.inj (hm.symm.trans hm₀)
      exact hgiven (hsame ▸ hgiven')
    · exact h.undrawn.given identity m'.attemptId hgiven' n hn hdrawn
  · exact not_pending_of_exhausted h.integrity ⟨m, hm, hex⟩ hrow hid

/-- A blocked member is not returned by `pending` until `retry`. -/
theorem not_pending_of_blocked {given : Given} {ops : List Op} (h : Blocked env given identity w)
    (hops : ∀ op ∈ ops, op ≠ .retry identity) (hworked : WorkedRun env given w ops)
    {excluded : List String} {row : Inventory}
    (hrow : ((Op.pending excluded).exec env (run env w ops)).1 = .ok (.row (some row))) :
    row.identity ≠ identity := by
  induction ops generalizing w given with
  | nil =>
      obtain ⟨m, hm, hex, -⟩ := h.member
      exact not_pending_of_exhausted h.integrity ⟨m, hm, hex⟩ hrow
  | cons op ops ih =>
      exact ih (step_blocked (hops op List.mem_cons_self) hworked.1 h)
        (fun op' hop' => hops op' (List.mem_cons_of_mem _ hop')) hworked.2 hrow

/-- A `recoverUnauthorized` past the limit blocks the member. -/
theorem step_blocks {given : Given} {op : Op} {u : WindowUse} (hI : w.db.Integrity)
    (hworked : op.Worked given) (h : Undrawn env given w)
    (hre : op.reauthorization env identity w = some u) (hrefused : u.admitted = false) :
    Blocked env (given.after env w op) identity (step env w op) := by
  cases op with
  | recoverUnauthorized held token =>
      refine ⟨run_integrity env hI [_], step_undrawn hI hworked h, ?_⟩
      rw [step, Op.exec, reply_run]
      rcases recoverUnauthorized_cases env held token w with
        ⟨w', hrun, -⟩ | ⟨w', m, m', t, hrun, hm, -, hm', hreauth⟩
      · simp [Op.reauthorization, hrun] at hre
      · by_cases hid : held.memberIdentity = identity
        · subst hid
          simp only [Op.reauthorization, hrun, hm', if_true, Option.map_some,
            Option.some.injEq] at hre
          obtain ⟨n, hn, -, hdrawn⟩ := hreauth.attemptId
          rw [hrun]
          refine ⟨m', hm', ?_, ?_⟩
          · rw [← hre] at hrefused
            simp only [decide_eq_false_iff_not, Nat.not_lt] at hrefused
            simp [exhausted, hreauth.state, hrefused]
          · rintro (hgiven | ⟨_, _, hpending, -⟩)
            · exact h.given _ _ hgiven n hn hdrawn
            · cases hpending
        · simp [Op.reauthorization, hrun, hid] at hre
  | _ => cases hre

theorem run_disabled (h : w.db.Disabled identity) {ops : List Op}
    (hops : ∀ op ∈ ops, op ≠ .retry identity) :
    (run env w ops).db.Disabled identity ∧ Unleased identity w.db (run env w ops).db := by
  induction ops generalizing w with
  | nil => exact ⟨h, .refl identity w.db⟩
  | cons op ops ih =>
      have hop := hops op List.mem_cons_self
      obtain ⟨hdis, hun⟩ := ih (step_disabled op hop h)
        fun op' hop' => hops op' (List.mem_cons_of_mem _ hop')
      exact ⟨hdis, (step_unleased op hop h).trans hun⟩

theorem run_undrawn {given : Given} {ops rest : List Op} (hI : w.db.Integrity)
    (h : Undrawn env given w) (hworked : WorkedRun env given w (ops ++ rest)) :
    ∃ given', Undrawn env given' (run env w ops) ∧ WorkedRun env given' (run env w ops) rest := by
  induction ops generalizing w given with
  | nil => exact ⟨given, h, hworked⟩
  | cons op ops ih =>
      exact ih (run_integrity env hI [op]) (step_undrawn hI hworked.1 h) hworked.2

/-- A disabled member stays disabled and unleased until `retry`. The re-authorizations of a member are
at most three in a window, which begins with its first use, takes uses for an hour only and is over
when the next one begins; a start of `0` says that no window was open. Once one is refused, `pending`
does not return the member before `retry`, in any run whose checkpoints come from workers. -/
theorem disabled_sticky_and_reauth_bounded (env : Env) (identity : String) (w : World) :
    (w.db.Disabled identity → ∀ ops, (∀ op ∈ ops, op ≠ .retry identity) →
      (run env w ops).db.Disabled identity ∧ Unleased identity w.db (run env w ops).db
      ∧ ∀ before op after held, ops = before ++ op :: after →
          (op.exec env (run env w before)).1 = .ok (.held held) → held.memberIdentity ≠ identity)
    ∧ (∀ ops,
        (∀ v ≠ 0, (reauthorizations env identity w ops).countP
          (fun u => u.admitted && u.window = v) ≤ 3)
        ∧ (∀ u ∈ reauthorizations env identity w ops, u.at_ < u.window + 60 * 60 * 1000)
        ∧ (reauthorizations env identity w ops).Pairwise (fun u u' => u.window = u'.window
            ∨ u.window = 0 ∨ u.window + 60 * 60 * 1000 ≤ u'.window)
        ∧ ∀ before u after, reauthorizations env identity w ops = before ++ u :: after →
            u.window ≠ (w.db.reauth identity).start → (∀ u' ∈ before, u'.window ≠ u.window) →
            u.at_ = u.window)
    ∧ ∀ given, w.db.Integrity → Undrawn env given w → ∀ before op after,
        WorkedRun env given w (before ++ op :: after) →
        (∃ u, op.reauthorization env identity (run env w before) = some u ∧ u.admitted = false) →
        (∀ op' ∈ after, op' ≠ .retry identity) → ∀ excluded row,
        ((Op.pending excluded).exec env (run env w (before ++ op :: after))).1
          = .ok (.row (some row)) → row.identity ≠ identity := by
  have hspan : 0 < reauthWindowMs := by decide
  refine ⟨fun h ops hops => ?_, fun ops => ?_, ?_⟩
  · obtain ⟨hdis, hun⟩ := run_disabled h hops
    refine ⟨hdis, hun, ?_⟩
    rintro before op after held rfl hheld
    have hbefore : (run env w before).db.Disabled identity :=
      (run_disabled h fun op' hop' => hops op' (List.mem_append_left _ hop')).1
    exact not_admitted_of_disabled (hops op (by simp)) hbefore hheld
  · have hlog := reauthorizations_eq_log env identity w ops
    refine ⟨fun v hv => ?_, fun u hu => ?_, ?_, fun before u after heq hw hfirst => ?_⟩
    · rw [hlog]
      exact FixedWindow.admitted_le hspan hv _ _
    · rw [hlog] at hu
      exact FixedWindow.at_lt_of_mem_log hspan hu
    · rw [hlog]
      exact FixedWindow.log_pairwise hspan _ _
    · rw [hlog] at heq
      exact FixedWindow.at_of_first_use heq hw hfirst
  · rintro given hI hundrawn before op after hworked ⟨u, hu, hrefused⟩ hafter excluded row hrow
    obtain ⟨given', hundrawn', hworked', hrest⟩ := run_undrawn hI hundrawn hworked
    have hblocked := step_blocks (run_integrity env hI before) hworked' hundrawn' hu hrefused
    rw [run_append] at hrow
    exact not_pending_of_blocked hblocked hafter hrest hrow

/-- A pool whose first member has used its window up. -/
def Sample.spent : World := { Sample.world with
  db := { Sample.db with
    members := [{ Sample.member "aaa.a00" 0 with reauthCount := 3, reauthWindowAt := 1 },
      Sample.member "aab.a00" 1] } }

theorem Sample.spent_integrity : Sample.spent.db.Integrity := by
  constructor <;> decide

theorem Sample.spent_undrawn : Undrawn Sample.env (fun _ _ => False) Sample.spent := by
  refine ⟨fun identity m hm n _ heq => ?_, fun _ _ h => h.elim⟩
  have hattempt : m.attemptId = "attempt" := by
    have hmem := List.mem_of_find?_eq_some hm
    simp only [Sample.spent, List.mem_cons, List.not_mem_nil, or_false] at hmem
    rcases hmem with rfl | rfl <;> rfl
  rw [hattempt] at heq
  have hmem : 'a' ∈ List.replicate n 'u' := by
    have hchars := congrArg String.toList heq
    simp only [Sample.env, String.toList_ofList] at hchars
    rw [hchars]
    decide
  exact absurd (List.eq_of_mem_replicate hmem) (by decide)

theorem disabled_sticky_and_reauth_bounded_sample :
    (run Sample.env (step Sample.env Sample.world (.disable "aaa.a00"))
        [.cool "aaa.a00" (.finite 60) none, .reclaim]).db.Disabled "aaa.a00"
    ∧ ∀ excluded row, ((Op.pending excluded).exec Sample.env (run Sample.env Sample.spent
        ([.acquire Sample.caller false none] ++ .recoverUnauthorized Sample.handle "token"
          :: [.quarantine "aaa.a00" "late" none]))).1 = .ok (.row (some row)) →
        row.identity ≠ "aaa.a00" := by
  refine ⟨?_, ?_⟩
  · have hdisabled : (step Sample.env Sample.world (.disable "aaa.a00")).db.Disabled "aaa.a00" :=
      ⟨_, rfl, rfl⟩
    exact ((disabled_sticky_and_reauth_bounded Sample.env "aaa.a00" _).1 hdisabled _
      (by simp)).1
  · refine (disabled_sticky_and_reauth_bounded Sample.env "aaa.a00" Sample.spent).2.2 _
      Sample.spent_integrity Sample.spent_undrawn _ _ _ ⟨trivial, trivial, trivial, trivial⟩ ?_
      (by simp)
    exact ⟨⟨1007000, 1, false⟩, by decide +kernel, rfl⟩

end GhcpConsole.Pool
