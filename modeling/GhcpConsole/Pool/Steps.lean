import GhcpConsole.Pool.Operations

/-!
# Statement steps

One step of the store is a statement together with the reads its guard rests on: queries, clock
readings and UUIDs drawn since the step before. `Stmt.Guard` says, for each statement, what the
code has established by then; `Step` is a guarded statement or no change of the tables at all.
Later modules prove that every operation is a chain of steps and then reason about single steps
only.

Guards speak about the tables the statement finds, so they hold of every run, also of one whose
tables violate the schema; what the schema adds is an invariant of steps.
-/

namespace GhcpConsole.Pool

/-! ## Time and identifiers -/

/-- Neither clock readings nor UUIDs are ever taken back. -/
structure World.Before (w w' : World) : Prop where
  ticks : w.ticks ≤ w'.ticks
  uuids : w.uuids ≤ w'.uuids

theorem World.Before.refl (w : World) : w.Before w := ⟨Nat.le_refl _, Nat.le_refl _⟩

theorem World.Before.trans {w w' w'' : World} (h : w.Before w') (h' : w'.Before w'') :
    w.Before w'' :=
  ⟨Nat.le_trans h.ticks h'.ticks, Nat.le_trans h.uuids h'.uuids⟩

/-- The clock said `t` in between. -/
def Reading (env : Env) (w w' : World) (t : Nat) : Prop :=
  ∃ n, w.ticks ≤ n ∧ n < w'.ticks ∧ env.clock n = t

/-- The clock has said `t` by now. -/
def Past (env : Env) (w : World) (t : Nat) : Prop := ∃ n < w.ticks, env.clock n = t

/-- The UUID was drawn in between. -/
def Drawn (env : Env) (w w' : World) (id : String) : Prop :=
  ∃ n, w.uuids ≤ n ∧ n < w'.uuids ∧ env.uuid n = id

theorem Past.mono {env : Env} {w w' : World} {t : Nat} (h : Past env w t)
    (hb : w.Before w') : Past env w' t := by
  obtain ⟨n, hn, ht⟩ := h
  exact ⟨n, Nat.lt_of_lt_of_le hn hb.ticks, ht⟩

theorem Reading.widen {env : Env} {v w w' v' : World} {t : Nat} (h : Reading env w w' t)
    (hv : v.Before w) (hv' : w'.Before v') : Reading env v v' t := by
  obtain ⟨n, hlo, hhi, ht⟩ := h
  exact ⟨n, Nat.le_trans hv.ticks hlo, Nat.lt_of_lt_of_le hhi hv'.ticks, ht⟩

/-! ## Guards -/

namespace Db

/-- `assertReady` passes: the member is ready, verified and has a usable credential. -/
structure Leasable (db : Db) (identity : String) : Prop where
  row : ∃ m, db.inventory identity = some m ∧ m.state = .ready ∧ m.verifiedAt.isSome
  usable : db.usable identity = true

theorem Leasable.congr {db db' : Db} {identity : String} (h : db.Leasable identity)
    (hm : db'.members = db.members) (ha : db'.accounts = db.accounts) :
    db'.Leasable identity := by
  obtain ⟨m, hrow, hstate⟩ := h.row
  refine ⟨⟨m, ?_, hstate⟩, ?_⟩
  · simpa only [inventory, hm] using hrow
  · simpa only [Db.usable, account, ha] using h.usable

/-- A caller without a lease may be bound to the member: it is the member of the caller's catalog
hold, or nobody's while the caller has no catalog hold. -/
def Bindable (db : Db) (caller identity : String) : Prop :=
  (∃ enterpriseId, db.callerCatalog caller = some (⟨identity, enterpriseId⟩, .active))
  ∨ (db.callerCatalog caller = none ∧ db.unbound identity = true)

/-- No hold pins the member at the reading. -/
def Unheld (env : Env) (db : Db) (w w' : World) (identity : String) : Prop :=
  ∃ t, Reading env w w' t ∧ db.hasHolds identity t = false

/-- The hold of the handle is in force: what `currentHold` tests. -/
structure InForce (db : Db) (held : HeldLease) (row : JoinedHold) (member : Inventory)
    (t : Nat) : Prop where
  held : db.heldRow held = some row
  deadline : t < row.deadlineAt
  inventory : db.inventory row.memberIdentity = some member
  generation : member.generation = row.generation
  state : member.state = .ready ∨ member.state = .cooling
  usable : db.usable row.memberIdentity = true

end Db

/-- What the code knows about the tables of `w` when it runs a statement that ends in `w'`. -/
def Stmt.Guard (env : Env) (w w' : World) : Stmt → Prop
  | .deleteExpiredHolds t | .deleteExpiredCatalogHolds t => Past env w' t
  | .updateMember identity patch _ invalidating =>
      ∃ m, w.db.inventory identity = some m ∧ m.state ≠ .disabled
        ∧ invalidating = patch.invalidating m
        ∧ (patch.state = some .provisioning → w.db.Unheld env w w' identity)
  | .deleteLease leaseId =>
      ∃ identity, w.db.Unheld env w w' identity
        ∧ ∀ l ∈ w.db.leases, l.leaseId = leaseId →
            ∃ l' ∈ w.db.leases, l'.leaseId = leaseId ∧ l'.memberIdentity = identity
  | .deleteLeaseOf identity => w.db.Unheld env w w' identity
  | .insertLease row =>
      Drawn env w w' row.leaseId ∧ w.db.Leasable row.memberIdentity
      ∧ w.db.callerLease row.callerId = none ∧ w.db.Bindable row.callerId row.memberIdentity
      ∧ ∀ l ∈ w.db.leases, l.callerId ≠ row.callerId ∧ l.memberIdentity ≠ row.memberIdentity
          ∧ l.leaseId ≠ row.leaseId
  | .insertHold row =>
      Drawn env w w' row.requestId ∧ row.expiresAt = row.deadlineAt + holdDrainMs
      ∧ ∃ l ∈ w.db.leases, l.leaseId = row.leaseId ∧ w.db.Leasable l.memberIdentity
        ∧ ∃ m, w.db.inventory l.memberIdentity = some m ∧ row.generation = m.generation
  | .insertCatalogHold row =>
      Drawn env w w' row.requestId ∧ row.expiresAt = row.deadlineAt + holdDrainMs
      ∧ w.db.Leasable row.memberIdentity
      ∧ (∃ m, w.db.inventory row.memberIdentity = some m ∧ row.generation = m.generation)
      ∧ match w.db.callerLease row.callerId with
        | some l => l.memberIdentity = row.memberIdentity
        | none => w.db.Bindable row.callerId row.memberIdentity
  | .renewLease held _ _ =>
      held.kind = .lease ∧ ∃ row member t, Reading env w w' t ∧ w.db.InForce held row member t
  | .releaseReservation identity stage =>
      ∃ m, w.db.inventory identity = some m ∧ loginStage m.stage = true ∧ exhausted m = true
        ∧ (stage = .warmup ∨ stage = .synced)
  | .retryMember identity attemptId stage _ =>
      Drawn env w w' attemptId
      ∧ ∃ m, w.db.inventory identity = some m ∧ (m.state = .failed ∨ m.state = .disabled)
        ∧ isManual m.lastError = false
        ∧ stage = if m.stage = .ready then .warmup else m.stage
  | .setNextOrdinal n => w.db.settings.nextOrdinal < n
  | .insertAccount row =>
      w.db.account row.identity = none ∧ (w.db.enterprise row.enterpriseId).isSome
  | .deleteAccount identity => w.db.inventory identity = none
  | .insertMember row =>
      w.db.inventory row.identity = none ∧ (w.db.account row.identity).isSome
      ∧ (w.db.enterprise row.enterpriseId).isSome
      ∧ (∀ m ∈ w.db.members, m.ordinal ≠ row.ordinal) ∧ row.ordinal < w.db.settings.nextOrdinal
      ∧ ∃ attemptId t, Drawn env w w' attemptId
        ∧ row = newMember row.identity attemptId row.enterpriseId row.ordinal t
  | _ => True

/-- A guard looks at the counters of the world it ends in, not at its tables. -/
theorem Stmt.Guard.congr {env : Env} {st : Stmt} {w w' v : World} (hg : st.Guard env w w')
    (ht : w'.ticks = v.ticks) (hu : w'.uuids = v.uuids) : st.Guard env w v := by
  obtain ⟨_, _, _, _⟩ := w'
  obtain ⟨_, _, _, _⟩ := v
  obtain rfl := ht
  obtain rfl := hu
  cases st <;> exact hg

/-! ## Steps -/

/-- Guarded statements of a set, and stretches of a run that leave the tables alone. -/
inductive Step (env : Env) (A : Stmt → Prop) (w w' : World) : Prop
  | idle (hb : w.Before w') (hdb : w'.db = w.db)
  | exec (st : Stmt) (hA : A st) (hb : w.Before w') (hg : st.Guard env w w')
      (hdb : w'.db = st.apply w.db)

abbrev Steps (env : Env) (A : Stmt → Prop) : World → World → Prop :=
  Relation.ReflTransGen (Step env A)

variable {env : Env} {A B : Stmt → Prop} {w w' : World}

theorem Step.before (h : Step env A w w') : w.Before w' := by
  cases h <;> assumption

theorem Step.mono (h : Step env A w w') (hAB : ∀ st, A st → B st) : Step env B w w' := by
  cases h with
  | idle hb hdb => exact .idle hb hdb
  | exec st hA hb hg hdb => exact .exec st (hAB st hA) hb hg hdb

theorem Steps.before (h : Steps env A w w') : w.Before w' := by
  induction h with
  | refl => exact .refl w
  | tail _ hstep ih => exact ih.trans hstep.before

theorem Steps.mono (h : Steps env A w w') (hAB : ∀ st, A st → B st) : Steps env B w w' :=
  Relation.ReflTransGen.mono (fun _ _ hs => hs.mono hAB) _ _ h

/-- A property that every step keeps is kept by every chain. -/
theorem Steps.invariant {P : World → Prop} (hP : ∀ v v', Step env A v v' → P v → P v')
    (h : Steps env A w w') (hw : P w) : P w' := by
  induction h with
  | refl => exact hw
  | tail _ hstep ih => exact hP _ _ hstep ih

/-! ## Reading a program as steps

`Via (Step env A) w₀ m w` with `w` ahead of `w₀`: what `m` has read before it runs from `w`
belongs to its next step. -/

/-- Reads only have happened since `w₀`. -/
structure World.Ahead (w w₀ : World) : Prop where
  before : w₀.Before w
  db : w.db = w₀.db

theorem World.Ahead.refl (w : World) : w.Ahead w := ⟨.refl w, rfl⟩

theorem World.Ahead.now {w w₀ : World} (h : w.Ahead w₀) :
    { w with ticks := w.ticks + 1 }.Ahead w₀ :=
  ⟨⟨Nat.le_succ_of_le h.before.ticks, h.before.uuids⟩, h.db⟩

theorem World.Ahead.draw {w w₀ : World} (h : w.Ahead w₀) :
    { w with uuids := w.uuids + 1 }.Ahead w₀ :=
  ⟨⟨h.before.ticks, Nat.le_succ_of_le h.before.uuids⟩, h.db⟩

theorem World.Ahead.reading (env : Env) {w w₀ : World} (h : w.Ahead w₀) :
    Reading env w₀ { w with ticks := w.ticks + 1 } (env.clock w.ticks) :=
  ⟨w.ticks, h.before.ticks, Nat.lt_succ_self _, rfl⟩

theorem World.Ahead.drawn (env : Env) {w w₀ : World} (h : w.Ahead w₀) :
    Drawn env w₀ { w with uuids := w.uuids + 1 } (env.uuid w.uuids) :=
  ⟨w.uuids, h.before.uuids, Nat.lt_succ_self _, rfl⟩

/-- No hold pins the member at a reading just taken. -/
theorem World.Ahead.unheld (env : Env) {w w₀ : World} {identity : String} (h : w.Ahead w₀)
    (hh : w.db.hasHolds identity (env.clock w.ticks) = false) :
    w₀.db.Unheld env w₀ { w with ticks := w.ticks + 1 } identity :=
  ⟨_, h.reading env, h.db ▸ hh⟩

open Tx (Via Traces)

variable {α β : Type} {w₀ : World}

@[simp] theorem via_now {k : Nat → StoreM β} :
    Via (Step env A) w₀ (now env >>= k) w
      ↔ Via (Step env A) w₀ (k (env.clock w.ticks)) { w with ticks := w.ticks + 1 } := Iff.rfl

@[simp] theorem via_randomUuid {k : String → StoreM β} :
    Via (Step env A) w₀ (randomUuid env >>= k) w
      ↔ Via (Step env A) w₀ (k (env.uuid w.uuids)) { w with uuids := w.uuids + 1 } := Iff.rfl

@[simp] theorem via_select {q : Db → α} {k : α → StoreM β} :
    Via (Step env A) w₀ (select q >>= k) w ↔ Via (Step env A) w₀ (k (q w.db)) w := Iff.rfl

@[simp] theorem via_hasHolds {identity : String} {k : Bool → StoreM β} :
    Via (Step env A) w₀ (hasHolds env identity >>= k) w
      ↔ Via (Step env A) w₀ (k (w.db.hasHolds identity (env.clock w.ticks)))
          { w with ticks := w.ticks + 1 } := Iff.rfl

@[simp] theorem via_pure {a : α} {k : α → StoreM β} :
    Via (Step env A) w₀ (pure a >>= k) w ↔ Via (Step env A) w₀ (k a) w := Iff.rfl

@[simp] theorem via_throw {s : Nat} {c : String} {r : Nat} {k : α → StoreM β} :
    Via (Step env A) w₀ (throwPool s c r >>= k) w
      ↔ Via (Step env A) w₀ (throwPool s c r : StoreM β) w := Iff.rfl

@[simp] theorem via_bind_assoc {γ : Type} {m : StoreM α} {f : α → StoreM β}
    {k : β → StoreM γ} : Via (Step env A) w₀ (m >>= f >>= k) w
      ↔ Via (Step env A) w₀ (m >>= fun a => f a >>= k) w := Via.bind_assoc

/-- A program that only reads adds an idle step. -/
theorem via_idle {m : StoreM α} (hm : (m w).2.Ahead w) (ha : w.Ahead w₀) :
    Via (Step env A) w₀ m w :=
  .single (.idle (ha.before.trans hm.before) (hm.db.trans ha.db))

/-- Where the next step needs none of the reads so far, they are a step of their own. -/
theorem via_settled {m : StoreM α} (ha : w.Ahead w₀) (h : Via (Step env A) w m w) :
    Via (Step env A) w₀ m w :=
  .head (.idle ha.before ha.db) h

theorem via_return {a : α} (ha : w.Ahead w₀) : Via (Step env A) w₀ (pure a : StoreM α) w :=
  via_idle (.refl w) ha

theorem via_throwPool {s : Nat} {c : String} {r : Nat} (ha : w.Ahead w₀) :
    Via (Step env A) w₀ (throwPool s c r : StoreM α) w :=
  via_idle (.refl w) ha

theorem via_exec {st : Stmt} (hA : A st) (ha : w.Ahead w₀) (hg : st.Guard env w₀ w) :
    Via (Step env A) w₀ (exec st) w :=
  .write (.exec st hA ⟨ha.before.ticks, ha.before.uuids⟩ (hg.congr rfl rfl) (by rw [ha.db]))

theorem via_exec_bind {st : Stmt} {k : Unit → StoreM β} (hA : A st) (ha : w.Ahead w₀)
    (hg : st.Guard env w₀ w)
    (hk : Via (Step env A) { w with db := st.apply w.db } (k ()) { w with db := st.apply w.db }) :
    Via (Step env A) w₀ (exec st >>= k) w :=
  .bind (via_exec hA ha hg) fun _ _ h => by cases h; exact hk

/-- A first half that only reads leaves its readings to the next step. -/
theorem via_reads_bind {m : StoreM α} {k : α → StoreM β} (ha : w.Ahead w₀)
    (hm : (m w).2.Ahead w)
    (hk : ∀ a w', m w = (.ok a, w') → w'.Ahead w₀ → w'.db = w.db → Via (Step env A) w₀ (k a) w') :
    Via (Step env A) w₀ (m >>= k) w := by
  unfold Via at *
  rw [Tx.bind_run]
  rcases hrun : m w with ⟨e | a, w'⟩ <;> rw [hrun] at hm
  · exact .single (.idle (ha.before.trans hm.before) (hm.db.trans ha.db))
  · exact hk a w' hrun ⟨ha.before.trans hm.before, hm.db.trans ha.db⟩ hm.db

theorem ahead_of_run {α : Type} {m : StoreM α} {r : Except StoreError α} (hm : (m w).2.Ahead w)
    (h : m w = (r, w')) : w'.Ahead w := by
  rwa [h] at hm

/-- A chain without statements only reads. -/
theorem ahead_of_steps (env : Env) (h : Steps env (fun _ => False) w w') : w'.Ahead w := by
  induction h with
  | refl => exact .refl w
  | tail _ hstep ih =>
      cases hstep with
      | idle hb hdb => exact ⟨ih.before.trans hb, hdb.trans ih.db⟩
      | exec st hA => exact hA.elim

theorem via_transaction {m : StoreM α} (ha : w.Ahead w₀) (hm : Via (Step env A) w₀ m w) :
    Via (Step env A) w₀ (transaction m) w :=
  hm.transaction fun s' hs => by
    have hb := Steps.before hs
    exact .idle ⟨hb.ticks, hb.uuids⟩ ha.db

theorem traces_transaction {m : StoreM α} (hm : Traces (Step env A) m) :
    Traces (Step env A) (transaction m) :=
  fun w => via_transaction (.refl w) (hm w)

end GhcpConsole.Pool
