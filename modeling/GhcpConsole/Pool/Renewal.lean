import GhcpConsole.Pool.Exclusivity

/-!
# The renewal law

Identifiers are drawn, never reused, so a lease or a hold can be followed through a run by its id.
One statement raises the expiry of a lease, `finish` runs it at most once and before anything
else, and then deletes the hold that allowed it.
-/

namespace GhcpConsole.Pool

open Tx (Via)

variable {env : Env} {A : Stmt → Prop} {w w' : World}

/-! ## Identifiers -/

/-- The id was drawn by now. -/
def Issued (env : Env) (w : World) (id : String) : Prop := ∃ n < w.uuids, env.uuid n = id

theorem Issued.mono {id : String} (h : Issued env w id) (hb : w.Before w') : Issued env w' id := by
  obtain ⟨n, hn, hid⟩ := h
  exact ⟨n, Nat.lt_of_lt_of_le hn hb.uuids, hid⟩

theorem Drawn.issued {id : String} (h : Drawn env w w' id) : Issued env w' id := by
  obtain ⟨n, -, hn, hid⟩ := h
  exact ⟨n, hn, hid⟩

/-- What is drawn later is new. -/
theorem Issued.ne_drawn {id id' : String} (h : Issued env w id) (h' : Drawn env w w' id') :
    id ≠ id' := by
  obtain ⟨n, hn, rfl⟩ := h
  obtain ⟨n', hn', -, rfl⟩ := h'
  intro heq
  have := env.uuid_inj heq
  omega

/-- All ids in the tables have been issued, and requests are known by theirs. -/
structure World.Identified (env : Env) (w : World) : Prop where
  leases : ∀ l ∈ w.db.leases, Issued env w l.leaseId
  holds : ∀ h ∈ w.db.holds, Issued env w h.requestId
  catalogHolds : ∀ c ∈ w.db.catalogHolds, Issued env w c.requestId
  requests : Keyed (·.requestId) w.db.holds
  catalogRequests : Keyed (·.requestId) w.db.catalogHolds

theorem Step.identified (hstep : Step env A w w') (h : w.Identified env) : w'.Identified env := by
  cases hstep with
  | idle hb hdb =>
      exact ⟨fun l hl => (h.leases l (hdb ▸ hl)).mono hb, fun x hx => (h.holds x (hdb ▸ hx)).mono hb,
        fun c hc => (h.catalogHolds c (hdb ▸ hc)).mono hb, hdb ▸ h.requests,
        hdb ▸ h.catalogRequests⟩
  | exec st _ hb hg hdb =>
      refine ⟨fun l hl => ?_, fun x hx => ?_, fun c hc => ?_, ?_, ?_⟩ <;> rw [hdb] at *
      · rcases mem_leases_apply hl with ⟨l₀, hl₀, hid, -⟩ | rfl
        · exact hid ▸ (h.leases l₀ hl₀).mono hb
        · exact hg.1.issued
      · rcases mem_holds_apply hx with hx | rfl
        · exact (h.holds x hx).mono hb
        · exact hg.1.issued
      · rcases mem_catalogHolds_apply hc with hc | rfl
        · exact (h.catalogHolds c hc).mono hb
        · exact hg.1.issued
      · rcases apply_holds w.db st with ⟨p, hfil⟩ | ⟨row, rfl, happ⟩
        · exact hfil ▸ h.requests.filter p
        · exact happ ▸ h.requests.append fun x hx => (h.holds x hx).ne_drawn hg.1
      · rcases apply_catalogHolds w.db st with ⟨p, hfil⟩ | ⟨row, rfl, happ⟩
        · exact hfil ▸ h.catalogRequests.filter p
        · exact happ ▸ h.catalogRequests.append fun c hc => (h.catalogHolds c hc).ne_drawn hg.1

theorem Db.Initial.identified (h : w.db.Initial) : w.Identified env where
  leases := by simp [h.leases]
  holds := by simp [h.holds]
  catalogHolds := by simp [h.catalogHolds]
  requests := by
    rw [h.holds]
    exact .nil
  catalogRequests := by
    rw [h.catalogHolds]
    exact .nil

theorem run_identified (env : Env) (hw : w.Identified env) (ops : List Op) : (run env w ops).Identified env :=
  run_invariant (fun _ _ _ hstep h => hstep.identified h) w hw ops

theorem Drawn.widen {id : String} {v v' : World} (h : Drawn env w w' id) (hv : v.Before w)
    (hv' : w'.Before v') : Drawn env v v' id := by
  obtain ⟨n, hlo, hhi, hid⟩ := h
  exact ⟨n, Nat.le_trans hv.uuids hlo, Nat.lt_of_lt_of_le hhi hv'.uuids, hid⟩

theorem run_steps (env : Env) (w : World) (ops : List Op) :
    Steps env (fun _ => True) w (run env w ops) := by
  induction ops generalizing w with
  | nil => exact .refl
  | cons op ops ih =>
      exact ((steps_of_step env w op).mono fun _ _ => trivial).trans (ih (step env w op))

/-! ## Holds are never rewritten -/

/-- A hold that is there at the end of a chain was there, as it is, or is new. -/
theorem steps_holds (hsteps : Steps env A w w') : ∀ h ∈ w'.db.holds,
    h ∈ w.db.holds ∨ Drawn env w w' h.requestId := by
  induction hsteps with
  | refl => exact fun h hh => .inl hh
  | tail hsteps hstep ih =>
      intro h hh
      have hb := Steps.before hsteps
      cases hstep with
      | idle hb' hdb =>
          exact (ih h (hdb ▸ hh)).imp_right fun hd => hd.widen (.refl _) hb'
      | exec st _ hb' hg hdb =>
          rcases mem_holds_apply (hdb ▸ hh) with hh | rfl
          · exact (ih h hh).imp_right fun hd => hd.widen (.refl _) hb'
          · exact .inr (hg.1.widen hb (.refl _))

theorem steps_catalogHolds (hsteps : Steps env A w w') : ∀ c ∈ w'.db.catalogHolds,
    c ∈ w.db.catalogHolds ∨ Drawn env w w' c.requestId := by
  induction hsteps with
  | refl => exact fun c hc => .inl hc
  | tail hsteps hstep ih =>
      intro c hc
      have hb := Steps.before hsteps
      cases hstep with
      | idle hb' hdb =>
          exact (ih c (hdb ▸ hc)).imp_right fun hd => hd.widen (.refl _) hb'
      | exec st _ hb' hg hdb =>
          rcases mem_catalogHolds_apply (hdb ▸ hc) with hc | rfl
          · exact (ih c hc).imp_right fun hd => hd.widen (.refl _) hb'
          · exact .inr (hg.1.widen hb (.refl _))

/-! ## What raises an expiry -/

/-- Some lease of `db` is there in `db'` with a later expiry. -/
def Extends (db db' : Db) (l : LeaseRow) : Prop :=
  l ∈ db.leases ∧ ∃ l' ∈ db'.leases, l'.leaseId = l.leaseId ∧ l.expiresAt < l'.expiresAt

theorem expiry_apply {db : Db} {st : Stmt} (hst : ∀ held t e, st ≠ .renewLease held t e)
    {l' : LeaseRow} (hl' : l' ∈ (st.apply db).leases) :
    (∃ l ∈ db.leases, l.leaseId = l'.leaseId ∧ l'.expiresAt ≤ l.expiresAt)
      ∨ st = .insertLease l' := by
  have hold : l' ∈ db.leases → (∃ l ∈ db.leases, l.leaseId = l'.leaseId
      ∧ l'.expiresAt ≤ l.expiresAt) ∨ st = .insertLease l' :=
    fun h => .inl ⟨l', h, rfl, Nat.le_refl _⟩
  cases st with
  | renewLease held t e => exact absurd rfl (hst held t e)
  | insertLease row =>
      rcases List.mem_append.mp hl' with h | h
      · exact hold h
      · exact .inr (by rw [List.mem_singleton.mp h])
  | clampLease identity now =>
      obtain ⟨l, hl, rfl⟩ := List.mem_map.mp hl'
      refine .inl ⟨l, hl, ?_⟩
      split
      · exact ⟨rfl, Nat.min_le_left _ _⟩
      · exact ⟨rfl, Nat.le_refl _⟩
  | deleteLease leaseId => exact hold (List.mem_of_mem_filter hl')
  | deleteLeaseOf identity => exact hold (List.mem_of_mem_filter hl')
  | writeCredentials identity c now =>
      simp only [Stmt.apply, Db.writeCredentials] at hl'
      split at hl'
      · split at hl' <;> exact hold hl'
      · exact hold hl'
  | deleteHold held =>
      simp only [Stmt.apply] at hl'
      split at hl' <;> exact hold hl'
  | _ => exact hold hl'

/-- Chains without a renewal extend no lease. -/
theorem steps_expiry (hA : ∀ held t e, ¬A (.renewLease held t e)) (hsteps : Steps env A w w') :
    ∀ l' ∈ w'.db.leases, (∃ l ∈ w.db.leases, l.leaseId = l'.leaseId
      ∧ l'.expiresAt ≤ l.expiresAt) ∨ Drawn env w w' l'.leaseId := by
  induction hsteps with
  | refl => exact fun l' hl' => .inl ⟨l', hl', rfl, Nat.le_refl _⟩
  | tail hsteps hstep ih =>
      intro l' hl'
      cases hstep with
      | idle hb hdb => exact (ih l' (hdb ▸ hl')).imp_right fun hd => hd.widen (.refl _) hb
      | exec st hst hb hg hdb =>
          have hno : ∀ held t e, st ≠ .renewLease held t e :=
            fun held t e heq => hA held t e (heq ▸ hst)
          rcases expiry_apply hno (hdb ▸ hl') with ⟨l, hl, hid, hle⟩ | rfl
          · rcases ih l hl with ⟨l₀, hl₀, hid₀, hle₀⟩ | hd
            · exact .inl ⟨l₀, hl₀, hid₀.trans hid, Nat.le_trans hle hle₀⟩
            · exact .inr (hid ▸ hd.widen (.refl _) hb)
          · exact .inr (hg.1.widen (Steps.before hsteps) (.refl _))

theorem not_extends_of_steps (hA : ∀ held t e, ¬A (.renewLease held t e))
    (hw : w.Identified env) (hI : w.db.Integrity) (hsteps : Steps env A w w') (l : LeaseRow) :
    ¬Extends w.db w'.db l := by
  rintro ⟨hl, l', hl', hid, hlt⟩
  rcases steps_expiry hA hsteps l' hl' with ⟨l₀, hl₀, hid₀, hle⟩ | hd
  · obtain rfl := hI.leaseIds.eq hl₀ hl (hid₀.trans hid)
    omega
  · exact (hw.leases l hl).ne_drawn hd hid.symm

/-! ## `finish` -/

/-- What `finish` runs after the renewal: the deletion of its hold, and a sweep. -/
def Completing (held : HeldLease) (st : Stmt) : Prop := st.Upkeep ∨ st = .deleteHold held

theorem completing_not_renewal {held : HeldLease} : ∀ held' t e,
    ¬Completing held (.renewLease held' t e) := by
  rintro held' t e (h | h) <;> cases h

theorem via_complete (held : HeldLease) (ha : w'.Ahead w) :
    Via (Step env (Completing held)) w (do
      exec (.deleteHold held)
      reclaim env) w' :=
  via_exec_bind (.inr rfl) ha trivial (via_reclaim (fun _ h => .inl h) (.refl _))

theorem transaction_result {α : Type} (m : StoreM α) (w : World) :
    (transaction m w).2 = (m w).2 ∨ (transaction m w).2 = w.rollback (m w).2 := by
  rw [transaction, Tx.transaction]
  rcases m w with ⟨_ | _, _⟩ <;> simp

/-- The renewal is its statement, on the tables it finds, and an event. -/
theorem renewLease_run (env : Env) (held : HeldLease) (v : World) : ∃ v₂,
    let t := env.clock v.ticks
    let v₁ : World := { v with
      ticks := v.ticks + 1
      db := (Stmt.renewLease held t (t + v.db.settings.leaseSeconds * 1000)).apply v.db }
    renewLease env held v = (.ok (), v₂) ∧ Steps env Stmt.Upkeep v₁ v₂ := by
  let fields : EventFields := { action := "lease_renewed", identity := held.memberIdentity,
                                caller := held.callerId, leaseId := held.leaseId }
  let v₁ : World := { v with
    ticks := v.ticks + 1
    db := (Stmt.renewLease held (env.clock v.ticks)
      (env.clock v.ticks + v.db.settings.leaseSeconds * 1000)).apply v.db }
  let changed := v.db.leases.any fun l => l.leaseId = held.leaseId
    && l.callerId = held.callerId && l.memberIdentity = held.memberIdentity
    && v.db.members.any fun m => m.identity = l.memberIdentity && m.state = .ready
  have hrun : renewLease env held v
      = (if changed then recordEvent env fields else pure ()) v₁ := rfl
  cases hchanged : changed with
  | true =>
      obtain ⟨events, hev⟩ := recordEvent_run env fields v₁
      have hvia : Via (Step env Stmt.Upkeep) v₁ (recordEvent env fields) v₁ :=
        via_recordEvent (fun _ h => h) _ (.refl _)
      refine ⟨_, by rw [hrun, hchanged, if_pos rfl, hev], ?_⟩
      rw [Via, hev] at hvia
      exact hvia
  | false => exact ⟨v₁, by rw [hrun, hchanged]; rfl, .refl⟩

/-- `finish` either only completes its hold, or it renews the lease first, on the tables it
found and with the hold in force, and then deletes the hold. -/
theorem finish_cases (env : Env) (held : HeldLease) (success : Bool) (w : World) :
    Steps env (Completing held) w (step env w (.finish held success))
    ∨ (success = true ∧ held.kind = .lease ∧ ∃ row member t w₁ t₁ expiresAt w₂,
        Reading env w w₁ t ∧ w.db.InForce held row member t ∧ w.Before w₁
        ∧ w₁.db = (Stmt.renewLease held t₁ expiresAt).apply w.db
        ∧ Steps env Stmt.Upkeep w₁ w₂
        ∧ Steps env Stmt.Upkeep { w₂ with db := (Stmt.deleteHold held).apply w₂.db }
            (step env w (.finish held success))) := by
  have hstep : step env w (.finish held success) = (finish env held success w).2 := by
    simp only [step, Op.exec, Tx.bind_run]
    rcases finish env held success w with ⟨_ | _, _⟩ <;> rfl
  rw [hstep]
  rcases hrow : w.db.heldRow held with _ | row
  · left
    rw [show finish env held success w = (.ok (), w) by
      simp [finish, transaction, Tx.transaction, Tx.bind_run, hrow]]
  by_cases hrenew : success = true ∧ held.kind ≠ .catalog
  · obtain ⟨current, v, hcurrent, ha, hforce⟩ := currentHold_cases env held w
    rcases current with _ | current
    · left
      rw [show finish env held success w
          = transaction (do exec (.deleteHold held); reclaim env) v by
        simp [finish, transaction, Tx.transaction, Tx.bind_run, hrow, hrenew, hcurrent,
          World.rollback, ha.db]]
      exact via_transaction ha (via_complete held ha)
    · rw [show finish env held success w
          = transaction (do renewLease env held; exec (.deleteHold held); reclaim env) v by
        simp [finish, transaction, Tx.transaction, Tx.bind_run, hrow, hrenew, hcurrent,
          World.rollback, ha.db]]
      obtain ⟨member, t, ht, hforce⟩ := hforce current rfl
      obtain ⟨v₂, hrun, hsteps⟩ := renewLease_run env held v
      let v₃ : World := { v₂ with db := (Stmt.deleteHold held).apply v₂.db }
      have hbody : (do renewLease env held; exec (.deleteHold held); reclaim env) v
          = reclaim env v₃ := Tx.bind_ok hrun
      have hlast : Steps env Stmt.Upkeep v₃ (reclaim env v₃).2 :=
        via_reclaim (fun _ h => h) (.refl v₃)
      let renewal := Stmt.renewLease held (env.clock v.ticks)
        (env.clock v.ticks + v.db.settings.leaseSeconds * 1000)
      let v₁ : World := { v with ticks := v.ticks + 1, db := renewal.apply v.db }
      have hb : v.Before v₁ := ⟨Nat.le_succ _, Nat.le_refl _⟩
      rcases transaction_result (do renewLease env held; exec (.deleteHold held); reclaim env) v with
        hres | hres
      · right
        cases hkind : held.kind with
        | catalog => exact absurd hkind hrenew.2
        | lease =>
            refine ⟨hrenew.1, rfl, current, member, t, v₁, env.clock v.ticks, _, v₂,
              ht.widen (.refl w) hb, hforce, ha.before.trans hb, congrArg renewal.apply ha.db,
              hsteps, ?_⟩
            rw [hres, hbody]
            exact hlast
      · left
        rw [hres, hbody]
        have hdelete : v₂.Before v₃ := ⟨Nat.le_refl _, Nat.le_refl _⟩
        have hb' := ((hb.trans (Steps.before hsteps)).trans hdelete).trans (Steps.before hlast)
        exact .single (.idle ⟨Nat.le_trans ha.before.ticks hb'.ticks,
          Nat.le_trans ha.before.uuids hb'.uuids⟩ ha.db)
  · left
    rw [show finish env held success w
        = transaction (do exec (.deleteHold held); reclaim env) w by
      simp [finish, transaction, Tx.transaction, Tx.bind_run, hrow, hrenew]]
    exact via_transaction (.refl w) (via_complete held (.refl w))

/-! ## The result -/

/-- The hold of an inference handle, as a row, with the lease it belongs to. -/
theorem heldRow_lease {db : Db} {held : HeldLease} {row : Db.JoinedHold}
    (hkind : held.kind = .lease) (h : db.heldRow held = some row) :
    ∃ x ∈ db.holds, x.requestId = held.requestId ∧ x.leaseId = held.leaseId
      ∧ row.generation = x.generation ∧ row.deadlineAt = x.deadlineAt
      ∧ row.memberIdentity = held.memberIdentity := by
  obtain ⟨hrow, hmatch⟩ := Option.filter_eq_some_iff.mp h
  simp only [hkind, Option.bind_eq_bind, Option.bind_eq_some_iff, Option.pure_def,
    Option.some.injEq] at hrow
  obtain ⟨x, hx, l, -, rfl⟩ := hrow
  have hids := List.find?_some hx
  simp only [Bool.and_eq_true, decide_eq_true_eq] at hids hmatch
  exact ⟨x, List.mem_of_find?_eq_some hx, hids.1, hids.2, rfl, rfl, hmatch.1⟩

theorem completing_steps {held : HeldLease} {v : World} (h : Steps env Stmt.Upkeep w v)
    (h' : Steps env Stmt.Upkeep { v with db := (Stmt.deleteHold held).apply v.db } w') :
    Steps env (Completing held) w w' :=
  have hdelete : Step env (Completing held) v
      { v with db := (Stmt.deleteHold held).apply v.db } :=
    .exec _ (.inr rfl) ⟨Nat.le_refl _, Nat.le_refl _⟩ trivial rfl
  (Steps.mono h fun _ => .inl).trans (.head hdelete (Steps.mono h' fun _ => .inl))

/-- What `finish` finds when it renews the lease: the hold of an inference request on it, before
its absolute deadline, and the member as it was when the hold was admitted, ready and usable. -/
structure Renewal (env : Env) (v v' : World) (held : HeldLease) (l : LeaseRow) : Prop where
  kind : held.kind = .lease
  leaseId : held.leaseId = l.leaseId
  callerId : held.callerId = l.callerId
  memberIdentity : held.memberIdentity = l.memberIdentity
  hold : ∃ h ∈ v.db.holds, h.requestId = held.requestId ∧ h.leaseId = l.leaseId
    ∧ (∃ t, Reading env v v' t ∧ t < h.deadlineAt)
    ∧ ∃ m, v.db.inventory l.memberIdentity = some m ∧ m.generation = h.generation
      ∧ m.state = .ready
  usable : v.db.usable l.memberIdentity = true

theorem renewal_of_extends {held : HeldLease} {success : Bool} {v : World} {l : LeaseRow}
    (hv : v.Identified env) (hI : v.db.Integrity)
    (hext : Extends v.db (step env v (.finish held success)).db l) :
    success = true ∧ Renewal env v (step env v (.finish held success)) held l := by
  rcases finish_cases env held success v with hsteps | ⟨hsuccess, hkind, row, member, t, w₁, t₁, e,
    w₂, ht, hforce, hb, hdb, hsteps₁, hsteps₂⟩
  · exact absurd hext (not_extends_of_steps completing_not_renewal hv hI hsteps l)
  obtain ⟨hl, l', hl', hid, hlt⟩ := hext
  have hsteps := completing_steps hsteps₁ hsteps₂
  rcases steps_expiry completing_not_renewal hsteps l' hl' with ⟨l₁, hl₁, hid₁, hle⟩ | hd
  swap
  · exact absurd hid.symm ((hv.leases l hl).ne_drawn (hd.widen hb (.refl _)))
  rw [hdb] at hl₁
  obtain ⟨l₀, hl₀, rfl⟩ := List.mem_map.mp hl₁
  by_cases hcond : l₀.leaseId = held.leaseId ∧ l₀.callerId = held.callerId
      ∧ l₀.memberIdentity = held.memberIdentity
      ∧ v.db.members.any (fun m => m.identity = l₀.memberIdentity && m.state = .ready)
  · simp only [if_pos hcond] at hid₁ hle
    obtain rfl := hI.leaseIds.eq hl₀ hl (hid₁.trans hid)
    obtain ⟨hidl, hcaller, hmember, hready⟩ := hcond
    obtain ⟨x, hx, hreq, hxid, hgen, hdead, hrowm⟩ := heldRow_lease hkind hforce.held
    have hm : v.db.inventory l₀.memberIdentity = some member := by
      rw [hmember, ← hrowm]
      exact hforce.inventory
    simp only [List.any_eq_true, Bool.and_eq_true, decide_eq_true_eq] at hready
    obtain ⟨m, hmem, hmid, hmready⟩ := hready
    obtain rfl : m = member := by
      have := hI.members.find? hmem
      rw [hmid] at this
      exact Option.some.inj (this.symm.trans hm)
    refine ⟨hsuccess, hkind, hidl.symm, hcaller.symm, hmember.symm, ?_, ?_⟩
    · exact ⟨x, hx, hreq, hxid.trans hidl.symm,
        ⟨t, ht.widen (.refl v) (Steps.before hsteps), hdead ▸ hforce.deadline⟩, m, hm,
        hforce.generation.trans hgen, hmready⟩
    · rw [hmember, ← hrowm]
      exact hforce.usable
  · simp only [if_neg hcond] at hid₁ hle
    obtain rfl := hI.leaseIds.eq hl₀ hl (hid₁.trans hid)
    omega

/-- A renewal uses the hold up: its request id has been issued and has no inference hold. -/
theorem hold_spent {held : HeldLease} {success : Bool} {v : World} {l : LeaseRow}
    (hv : v.Identified env) (hI : v.db.Integrity)
    (hext : Extends v.db (step env v (.finish held success)).db l) :
    Issued env (step env v (.finish held success)) held.requestId
      ∧ ∀ h ∈ (step env v (.finish held success)).db.holds, h.requestId ≠ held.requestId := by
  obtain ⟨x, hx, hreq, hxid, -⟩ := (renewal_of_extends hv hI hext).2.hold
  have hissued : Issued env v held.requestId := hreq ▸ hv.holds x hx
  have hlease : held.leaseId = l.leaseId := (renewal_of_extends hv hI hext).2.leaseId
  rcases finish_cases env held success v with hsteps | ⟨-, hkind, _, _, _, w₁, _, _, w₂, -, -, hb, hdb,
    hsteps₁, hsteps₂⟩
  · exact absurd hext (not_extends_of_steps completing_not_renewal hv hI hsteps l)
  refine ⟨hissued.mono (hb.trans (Steps.before (completing_steps hsteps₁ hsteps₂))),
    fun h hh hid => ?_⟩
  have hb₂ := hb.trans (Steps.before hsteps₁)
  rcases steps_holds hsteps₂ h hh with hh | hd
  · simp only [Stmt.apply, hkind, List.mem_filter, Bool.not_eq_true', Bool.and_eq_false_iff,
      decide_eq_false_iff_not] at hh
    obtain ⟨hh, hne⟩ := hh
    -- the hold that is left would be the handle's own
    rcases steps_holds hsteps₁ h hh with hh | hd
    · rw [hdb] at hh
      obtain rfl := hv.requests.eq hh hx (hid.trans hreq.symm)
      exact hne.elim (fun hne => hne hreq) fun hne => hne (hxid.trans hlease.symm)
    · exact hissued.ne_drawn (hd.widen hb (.refl _)) hid.symm
  · exact hissued.ne_drawn (hd.widen ⟨hb₂.ticks, hb₂.uuids⟩ (.refl _)) hid.symm

/-- Once its request id has been issued and has no hold, a handle never renews again. -/
theorem not_extends_of_spent {held : HeldLease} {v : World} (hv : v.Identified env)
    (hI : v.db.Integrity) (hspent : ∀ h ∈ v.db.holds, h.requestId ≠ held.requestId)
    (success : Bool) (l : LeaseRow) :
    ¬Extends v.db (step env v (.finish held success)).db l := fun hext => by
  obtain ⟨x, hx, hreq, -⟩ := (renewal_of_extends hv hI hext).2.hold
  exact hspent x hx hreq

/-- The expiry of a lease rises only by the successful completion of a live inference hold on it,
at most once for each hold, and no hold is ever rewritten. -/
theorem renewal_law (env : Env) (w : World) (hw : w.db.Initial) (ops : List Op) :
    (∀ op l, Extends (run env w ops).db (step env (run env w ops) op).db l →
      ∃ held, op = .finish held true
        ∧ Renewal env (run env w ops) (step env (run env w ops) op) held l)
    ∧ (∀ held l, Extends (run env w ops).db (run env w (ops ++ [.finish held true])).db l →
        ∀ ops' held' success l', held'.requestId = held.requestId →
          ¬Extends (run env w (ops ++ .finish held true :: ops')).db
            (run env w (ops ++ .finish held true :: ops' ++ [.finish held' success])).db l')
    ∧ (∀ ops', ∀ h ∈ (run env w ops).db.holds, ∀ h' ∈ (run env w (ops ++ ops')).db.holds,
        h'.requestId = h.requestId → h' = h)
    ∧ ∀ ops', ∀ c ∈ (run env w ops).db.catalogHolds,
        ∀ c' ∈ (run env w (ops ++ ops')).db.catalogHolds, c'.requestId = c.requestId → c' = c := by
  have hv := run_identified env hw.identified ops
  have hI := run_integrity env hw.toIntegrity ops
  refine ⟨fun op l hext => ?_, fun held l hext ops' held' success l' hid => ?_,
    fun ops' h hh h' hh' hid => ?_, fun ops' c hc c' hc' hid => ?_⟩
  · by_cases hfinish : ∃ held success, op = .finish held success
    · obtain ⟨held, success, rfl⟩ := hfinish
      obtain ⟨rfl, hrenewal⟩ := renewal_of_extends hv hI hext
      exact ⟨held, rfl, hrenewal⟩
    · refine absurd hext (not_extends_of_steps (fun held t e hpermit => ?_) hv hI
        (steps_of_step env _ op) l)
      exact hfinish ⟨held, true, hpermit⟩
  · simp only [run_append, run_cons, run_nil] at *
    obtain ⟨hissued, hspent⟩ := hold_spent hv hI hext
    generalize hu : step env (run env w ops) (.finish held true) = u at *
    have huv : u.Identified env := by
      rw [← hu]
      exact run_identified env hv [.finish held true]
    have huI : u.db.Integrity := by
      rw [← hu]
      exact run_integrity env hI [.finish held true]
    refine not_extends_of_spent (run_identified env huv ops') (run_integrity env huI ops')
      (fun h hh heq => ?_) success l'
    rcases steps_holds (run_steps env u ops') h hh with hh | hd
    · exact hspent h hh (heq.trans hid)
    · exact hissued.ne_drawn hd (heq.trans hid).symm
  · rw [run_append] at hh'
    rcases steps_holds (run_steps env _ ops') h' hh' with hh' | hd
    · exact hv.requests.eq hh' hh hid
    · exact absurd hid.symm ((hv.holds h hh).ne_drawn hd)
  · rw [run_append] at hc'
    rcases steps_catalogHolds (run_steps env _ ops') c' hc' with hc' | hd
    · exact hv.catalogRequests.eq hc' hc hid
    · exact absurd hid.symm ((hv.catalogHolds c hc).ne_drawn hd)

/-- The admission of the sample pool's caller. -/
def Sample.admitted : List Op := [.acquire Sample.caller false none]

theorem renewal_law_sample :
    (∀ op l, Extends (run Sample.env Sample.world Sample.admitted).db
        (step Sample.env (run Sample.env Sample.world Sample.admitted) op).db l →
      ∃ held, op = .finish held true
        ∧ Renewal Sample.env (run Sample.env Sample.world Sample.admitted)
            (step Sample.env (run Sample.env Sample.world Sample.admitted) op) held l)
    ∧ ∀ ops', ∀ h ∈ (run Sample.env Sample.world Sample.admitted).db.holds,
        ∀ h' ∈ (run Sample.env Sample.world (Sample.admitted ++ ops')).db.holds,
        h'.requestId = h.requestId → h' = h :=
  have h := renewal_law Sample.env Sample.world Sample.db_initial Sample.admitted
  ⟨h.1, h.2.2.1⟩

end GhcpConsole.Pool
