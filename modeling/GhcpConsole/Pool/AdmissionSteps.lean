import GhcpConsole.Pool.StoreSteps

/-!
# Admission and completion as steps

Each function of the admission path either only reads (`..._reads`, with what a successful return
has established in `..._ok`) or runs statements whose guards those reads establish.
-/

namespace GhcpConsole.Pool

open Tx (Via Traces)

variable {env : Env} {A : Stmt → Prop} {w₀ w : World}

/-! ## Admission -/

theorem normalizeCaller_reads (caller : String) (w : World) :
    (normalizeCaller caller w).2.Ahead w := by
  unfold normalizeCaller
  split <;> exact .refl w

theorem inferenceHoldTimeoutMs_reads (override : Option Int) (fallback : Nat) (w : World) :
    (inferenceHoldTimeoutMs override fallback w).2.Ahead w := by
  unfold inferenceHoldTimeoutMs
  split
  · exact .refl w
  · split <;> exact .refl w

theorem throwIfAborted_reads (aborted : Bool) (w : World) :
    (throwIfAborted aborted w).2.Ahead w := by
  unfold throwIfAborted
  split <;> exact .refl w

theorem ofExcept_reads {α : Type} (res : Except StoreError α) (w : World) :
    (ofExcept res w).2.Ahead w := by
  cases res <;> exact .refl w

theorem assertCallerNotCooling_reads (caller : String) (w : World) :
    (assertCallerNotCooling env caller w).2.Ahead w := by
  refine ahead_of_steps env ?_
  change Via _ w _ w
  simp only [assertCallerNotCooling, via_now, via_select]
  split
  · exact via_return (World.Ahead.refl w).now
  · exact via_throwPool (World.Ahead.refl w).now.now

theorem assertReady_reads (identity : String) (w : World) :
    (assertReady env identity w).2.Ahead w := by
  refine ahead_of_steps env ?_
  change Via _ w _ w
  simp only [assertReady, via_select]
  split
  · exact via_throwPool (.refl w)
  split
  · exact via_throwPool (World.Ahead.refl w).now
  split
  · exact via_throwPool (.refl w)
  simp only [via_select]
  split
  · exact via_return (.refl w)
  · exact via_throwPool (.refl w)

theorem assertReady_ok {identity : String} {w' : World}
    (h : assertReady env identity w = (.ok ⟨⟩, w')) : w.db.Leasable identity := by
  rcases hrow : w.db.inventory identity with _ | m
  · simp [assertReady, Tx.bind_run, hrow] at h
  by_cases hcool : m.state = .cooling
  · simp [assertReady, Tx.bind_run, hrow, hcool] at h
  by_cases hready : m.state = .ready ∧ m.verifiedAt ≠ none
  · cases husable : w.db.usable identity with
    | true => exact ⟨⟨m, hrow, hready.1, Option.isSome_iff_ne_none.mpr hready.2⟩, husable⟩
    | false => simp [assertReady, Tx.bind_run, hrow, hready, husable] at h
  · have : m.state ≠ .ready ∨ m.verifiedAt = none := by tauto
    simp [assertReady, Tx.bind_run, hrow, hcool, this] at h

theorem mem_orderBy {α : Type} {cmp : α → α → Ordering} {a : α} {l : List α} :
    a ∈ orderBy cmp l ↔ a ∈ l :=
  (List.perm_insertionSort _ l).mem_iff

namespace Db

theorem unbound_of_idleMember {db : Db} {enterpriseId identity : String}
    (h : db.idleMember enterpriseId = some identity) : db.unbound identity = true := by
  obtain ⟨m, hm, rfl⟩ := List.mem_map.mp (List.mem_of_mem_head? h)
  have hm := mem_orderBy.mp hm
  simp only [List.mem_filter, Bool.and_eq_true] at hm
  exact hm.2.2

/-- The caller's lease is a row of the table, joined with a member that exists. -/
theorem callerLease_eq {db : Db} {caller : String} {lease : Lease}
    (h : db.callerLease caller = some lease) :
    ∃ l ∈ db.leases, ∃ m, l.callerId = caller ∧ db.inventory l.memberIdentity = some m
      ∧ lease = { callerId := l.callerId, memberIdentity := l.memberIdentity,
                  enterpriseId := m.enterpriseId, leaseId := l.leaseId, phase := l.phase,
                  assignedAt := l.assignedAt, lastSuccessAt := l.lastSuccessAt,
                  expiresAt := l.expiresAt } := by
  obtain ⟨l, hl, hlease⟩ := List.mem_filterMap.mp (List.mem_of_mem_head? h)
  split at hlease
  · rename_i hcaller
    obtain ⟨m, hm, rfl⟩ := Option.map_eq_some_iff.mp hlease
    exact ⟨l, hl, m, hcaller, hm, rfl⟩
  · cases hlease

end Db

theorem firstIdle_unbound {db : Db} {member : PoolMember} : ∀ {order : List String},
    firstIdle db order = some member → db.unbound member.identity = true
  | enterpriseId :: rest, h => by
      unfold firstIdle at h
      split at h
      · rename_i identity hidle
        cases h
        exact Db.unbound_of_idleMember hidle
      · exact firstIdle_unbound h

theorem assertEnterpriseActive_reads (state : Option LifecycleState) (w : World) :
    (assertEnterpriseActive state w).2.Ahead w := by
  unfold assertEnterpriseActive
  split <;> exact .refl w

theorem availableMember_reads (caller : String) (w : World) :
    (availableMember env caller w).2.Ahead w := by
  refine ahead_of_steps env ?_
  change Via _ w _ w
  simp only [availableMember, via_select]
  split
  · refine via_reads_bind (.refl w) (assertEnterpriseActive_reads _ w) fun _ _ _ ha _ => ?_
    exact via_return ha
  · simp only [via_select]
    refine via_reads_bind (.refl w) (ofExcept_reads _ w) fun _ _ _ ha _ => ?_
    simp only [via_select]
    split
    · exact via_return ha
    · exact via_throwPool ha

theorem availableMember_ok {caller : String} {member : PoolMember} {w' : World}
    (h : availableMember env caller w = (.ok member, w')) :
    w.db.Bindable caller member.identity := by
  rcases hcat : w.db.callerCatalog caller with _ | ⟨pinned, state⟩
  · rcases horder : admissionOrder env.callerHash (schedulingEnterprises w.db) caller with e | order
    · simp [availableMember, Tx.bind_run, hcat, horder, ofExcept, Tx.rethrow] at h
    · rcases hidle : firstIdle w.db order with _ | m
      · simp [availableMember, Tx.bind_run, hcat, horder, ofExcept, Tx.rethrow, hidle] at h
      · simp [availableMember, Tx.bind_run, hcat, horder, ofExcept, Tx.rethrow, hidle] at h
        obtain ⟨rfl, -⟩ := h
        exact .inr ⟨hcat, firstIdle_unbound hidle⟩
  · by_cases hactive : state = .active
    · simp [availableMember, Tx.bind_run, hcat, assertEnterpriseActive, hactive] at h
      obtain ⟨rfl, -⟩ := h
      exact .inl ⟨pinned.enterpriseId, by rw [hcat, hactive]⟩
    · simp [availableMember, Tx.bind_run, hcat, assertEnterpriseActive, hactive] at h

theorem require_reads (ok : Db → Bool) (message : String) (w : World) :
    (require ok message w).2.Ahead w := by
  simp only [require, Tx.bind_run, select_run]
  split <;> exact .refl w

theorem require_ok {ok : Db → Bool} {message : String} {w' : World}
    (h : require ok message w = (.ok (), w')) : ok w.db = true ∧ w' = w := by
  cases hok : ok w.db with
  | true => exact ⟨rfl, by simp [require, Tx.bind_run, hok] at h; exact h.symm⟩
  | false => simp [require, Tx.bind_run, hok] at h

/-- `insertLease` leaves the new row in the table, and the members and accounts alone. -/
theorem insertLease_ok {caller : String} {member : PoolMember} {t : Nat} {lease : Lease}
    {w' : World} (h : insertLease env caller member t w = (.ok lease, w')) :
    (∃ l ∈ w'.db.leases, l.leaseId = lease.leaseId ∧ l.memberIdentity = lease.memberIdentity)
      ∧ lease.memberIdentity = member.identity
      ∧ w'.db.members = w.db.members ∧ w'.db.accounts = w.db.accounts := by
  simp only [insertLease, Tx.bind_eq_ok, randomUuid_run, exec_run, Tx.pure_run, Prod.mk.injEq,
    Except.ok.injEq] at h
  obtain ⟨_, _, ⟨rfl, rfl⟩, _, w₂, hreq, _, w₃, ⟨-, rfl⟩, _, w₄, hev, rfl, rfl⟩ := h
  obtain ⟨-, rfl⟩ := require_ok hreq
  obtain ⟨events, hrun⟩ := recordEvent_run env
    { action := "lease_acquired", identity := member.identity, caller := caller,
      leaseId := env.uuid w.uuids } _
  obtain ⟨-, rfl⟩ := Prod.mk.injEq .. ▸ hrun.symm.trans hev
  exact ⟨⟨_, List.mem_append_right _ (List.mem_singleton_self _), rfl, rfl⟩, rfl, rfl, rfl⟩

theorem via_insertLease (hA : ∀ st, Stmt.Upkeep st → A st) {caller : String}
    (hl : ∀ row, row.callerId = caller → A (.insertLease row))
    {member : PoolMember} {t : Nat} (ha : w.Ahead w₀)
    (hready : w.db.Leasable member.identity) (hnone : w.db.callerLease caller = none)
    (hbind : w.db.Bindable caller member.identity) :
    Via (Step env A) w₀ (insertLease env caller member t) w := by
  simp only [insertLease, via_randomUuid]
  refine via_reads_bind ha.draw (require_reads _ _ _) fun _ w₁ hreq _ _ => ?_
  obtain ⟨hunique, rfl⟩ := require_ok hreq
  refine via_exec_bind (hl _ rfl) ha.draw ?_
    (.bind (via_recordEvent hA _ (.refl _)) fun _ w₂ _ => via_return (.refl w₂))
  refine ⟨ha.drawn env, ha.db ▸ hready, ha.db ▸ hnone, ha.db ▸ hbind, fun l hl' => ?_⟩
  simp only [ha.db, Bool.not_eq_true', List.any_eq_false, Bool.or_eq_true, decide_eq_true_eq,
    not_or] at hunique
  exact ⟨(hunique l hl').1.1, (hunique l hl').1.2, (hunique l hl').2⟩

/-- A hold pins a leasable member: an inference hold on a lease row, a catalog hold on its own. -/
theorem via_hold {lease : Lease} {kind : HoldKind} {timeoutMs : Nat}
    (hh : ∀ row, kind = .lease → A (.insertHold row))
    (hc : ∀ row, row.callerId = lease.callerId → kind = .catalog → A (.insertCatalogHold row))
    (ha : w.Ahead w₀) (hready : w.db.Leasable lease.memberIdentity)
    (hlease : kind = .lease → ∃ l ∈ w.db.leases, l.leaseId = lease.leaseId
      ∧ l.memberIdentity = lease.memberIdentity)
    (hcatalog : kind = .catalog → match w.db.callerLease lease.callerId with
        | some l => l.memberIdentity = lease.memberIdentity
        | none => w.db.Bindable lease.callerId lease.memberIdentity) :
    Via (Step env A) w₀ (hold env lease kind timeoutMs) w := by
  obtain ⟨m, hm, -, -⟩ := hready.row
  simp only [hold, via_randomUuid, via_now, via_select, hm]
  have ha' : World.Ahead { w with ticks := w.ticks + 1, uuids := w.uuids + 1 } w₀ := ha.now.draw
  have hdrawn : Drawn env w₀ { w with ticks := w.ticks + 1, uuids := w.uuids + 1 }
    (env.uuid w.uuids) := ha.now.drawn env
  cases kind with
  | catalog =>
      refine via_exec_bind (hc _ rfl rfl) ha' ?_ (via_return (.refl _))
      refine ⟨hdrawn, rfl, ha.db ▸ hready, ⟨m, ha.db ▸ hm, rfl⟩, ?_⟩
      rw [← ha.db]
      exact hcatalog rfl
  | lease =>
      obtain ⟨l, hl, hid, hmember⟩ := hlease rfl
      refine via_exec_bind (hh _ rfl) ha' ?_ (via_return (.refl _))
      exact ⟨hdrawn, rfl, l, ha.db ▸ hl, hid, ha.db ▸ hmember ▸ hready,
        m, ha.db ▸ hmember ▸ hm, rfl⟩

theorem via_acquireBody (hA : ∀ st, Stmt.Upkeep st → A st) {caller : String} {timeoutMs : Nat}
    (hl : ∀ row, row.callerId = caller → A (.insertLease row)) (hh : ∀ row, A (.insertHold row))
    (ha : w.Ahead w₀) : Via (Step env A) w₀ (acquireBody env caller timeoutMs) w := by
  refine via_reads_bind ha (assertCallerNotCooling_reads caller w) fun _ w₁ _ ha _ => ?_
  simp only [via_now, via_select]
  split
  · rename_i lease hlease
    refine via_reads_bind ha.now (assertReady_reads _ _) fun _ w₂ hready ha₂ hdb => ?_
    split
    · simp only [via_throw]
      exact via_throwPool ha₂
    obtain ⟨l, hmem, m, -, -, rfl⟩ := Db.callerLease_eq hlease
    exact via_hold (fun row _ => hh row) (by rintro _ _ ⟨⟩) ha₂ (hdb ▸ assertReady_ok hready)
      (fun _ => ⟨l, by rw [hdb]; exact hmem, rfl, rfl⟩) (by rintro ⟨⟩)
  · rename_i hnone
    refine via_reads_bind ha.now (availableMember_reads _ _) fun member w₂ hmember ha₂ hdb => ?_
    refine via_reads_bind ha₂ (assertReady_reads _ _) fun _ w₃ hready ha₃ hdb₃ => ?_
    have hleasable : w₃.db.Leasable member.identity := hdb₃ ▸ assertReady_ok hready
    refine .bind (via_insertLease hA hl ha₃ hleasable ?_ ?_) fun lease w₄ hrun => ?_
    · rw [hdb₃, hdb]
      exact hnone
    · rw [hdb₃, hdb]
      exact availableMember_ok hmember
    · obtain ⟨hrow, hidentity, hmembers, haccounts⟩ := insertLease_ok hrun
      exact via_hold (fun row _ => hh row) (by rintro _ _ ⟨⟩) (.refl w₄)
        (hidentity ▸ hleasable.congr hmembers haccounts) (fun _ => hrow) (by rintro ⟨⟩)

theorem catalogMember_reads (caller : String) (existing : Option Lease) (w : World) :
    (catalogMember env caller existing w).2.Ahead w := by
  cases existing with
  | none => exact availableMember_reads caller w
  | some lease =>
      refine ahead_of_steps env ?_
      change Via _ w _ w
      simp only [catalogMember, via_select]
      refine via_reads_bind (.refl w) (assertEnterpriseActive_reads _ w) fun _ _ _ ha _ => ?_
      exact via_return ha

theorem via_acquireCatalogBody {caller : String}
    (hc : ∀ row, row.callerId = caller → A (.insertCatalogHold row)) (ha : w.Ahead w₀) :
    Via (Step env A) w₀ (acquireCatalogBody env caller) w := by
  refine via_reads_bind ha (assertCallerNotCooling_reads caller w) fun _ w₁ _ ha _ => ?_
  simp only [via_select]
  -- the member, and why the caller may be bound to it
  have hbound : ∀ member w', catalogMember env caller (w₁.db.callerLease caller) w₁
      = (.ok member, w') → match w₁.db.callerLease caller with
        | some l => l.memberIdentity = member.identity
        | none => w₁.db.Bindable caller member.identity := by
    intro member w' h
    rcases hlease : w₁.db.callerLease caller with _ | lease <;> rw [hlease] at h
    · exact availableMember_ok h
    · simp only [catalogMember, Tx.bind_eq_ok, Tx.pure_run, Prod.mk.injEq, Except.ok.injEq] at h
      obtain ⟨_, _, -, _, _, -, rfl, -⟩ := h
      rfl
  refine via_reads_bind ha (catalogMember_reads _ _ _) fun member w₂ hmember ha₂ hdb => ?_
  refine via_reads_bind ha₂ (assertReady_reads _ _) fun _ w₃ hready ha₃ hdb₃ => ?_
  have hhold : ∀ w₄ : World, w₄.Ahead w₀ → w₄.db = w₃.db → ∀ leaseId t,
      Via (Step env A) w₀ (hold env
        { callerId := caller, memberIdentity := member.identity
          enterpriseId := member.enterpriseId, leaseId := leaseId, phase := .provisional
          assignedAt := t, lastSuccessAt := none, expiresAt := t + env.options.requestTimeoutMs }
        .catalog env.options.requestTimeoutMs) w₄ := by
    intro w₄ ha₄ hdb₄ leaseId t
    refine via_hold (by rintro _ ⟨⟩) (fun row hrow _ => hc row hrow) ha₄ ?_ (by rintro ⟨⟩) fun _ => ?_
    · rw [hdb₄, hdb₃]
      exact assertReady_ok hready
    · rw [hdb₄, hdb₃, hdb]
      exact hbound member w₂ hmember
  split
  · simp only [via_now]
    split
    · simp only [via_throw]
      exact via_throwPool ha₃.now
    · simp only [via_now, via_randomUuid]
      exact hhold _ ha₃.now.now.draw rfl _ _
  · simp only [via_now, via_randomUuid]
    exact hhold _ ha₃.now.draw rfl _ _

theorem via_admission (hA : ∀ st, Stmt.Upkeep st → A st) {body : StoreM HeldLease}
    (hbody : Traces (Step env A) body) (ha : w.Ahead w₀) :
    Via (Step env A) w₀ (admission env body) w := by
  refine .bind (via_transaction ha ?_) fun res w₁ _ => via_idle (ofExcept_reads res w₁) (.refl w₁)
  exact .bind (via_reclaim hA ha) fun _ w₁ _ => (traces_transaction hbody w₁).tryReturn

theorem via_acquire (hA : ∀ st, Stmt.Upkeep st → A st) {caller : String} {aborted : Bool}
    {timeoutMs : Option Int} (hl : ∀ row, row.callerId = caller → A (.insertLease row))
    (hh : ∀ row, A (.insertHold row)) (ha : w.Ahead w₀) :
    Via (Step env A) w₀ (acquire env caller aborted timeoutMs) w := by
  refine via_reads_bind ha (normalizeCaller_reads _ _) fun _ w₁ _ ha _ => ?_
  refine via_reads_bind ha (inferenceHoldTimeoutMs_reads _ _ _) fun _ w₂ _ ha _ => ?_
  refine via_reads_bind ha (throwIfAborted_reads _ _) fun _ w₃ _ ha _ => ?_
  exact via_admission hA (fun w => via_acquireBody hA hl hh (.refl w)) ha

theorem via_acquireCatalog (hA : ∀ st, Stmt.Upkeep st → A st) {caller : String} {aborted : Bool}
    (hc : ∀ row, row.callerId = caller → A (.insertCatalogHold row)) (ha : w.Ahead w₀) :
    Via (Step env A) w₀ (acquireCatalog env caller aborted) w := by
  refine via_reads_bind ha (normalizeCaller_reads _ _) fun _ w₁ _ ha _ => ?_
  refine via_reads_bind ha (throwIfAborted_reads _ _) fun _ w₂ _ ha _ => ?_
  exact via_admission hA (fun w => via_acquireCatalogBody hc (.refl w)) ha

/-! ## Holds -/

/-- The fence of everything presented with a handle: it only reads, and passes holds in force. -/
theorem currentHold_cases (env : Env) (held : HeldLease) (w : World) :
    ∃ res w', currentHold env held w = (.ok res, w') ∧ w'.Ahead w
      ∧ ∀ row, res = some row →
          ∃ member t, Reading env w w' t ∧ w.db.InForce held row member t := by
  have hnone : ∀ w', w'.Ahead w → currentHold env held w = (.ok none, w') →
      ∃ res w', currentHold env held w = (.ok res, w') ∧ w'.Ahead w
      ∧ ∀ row, res = some row →
          ∃ member t, Reading env w w' t ∧ w.db.InForce held row member t :=
    fun w' ha h => ⟨none, w', h, ha, nofun⟩
  have ha := World.Ahead.refl w
  rcases hheld : w.db.heldRow held with _ | row
  · exact hnone w ha (by simp [currentHold, Tx.bind_run, hheld])
  by_cases hdeadline : row.deadlineAt ≤ env.clock w.ticks
  · exact hnone _ ha.now (by simp [currentHold, Tx.bind_run, hheld, hdeadline])
  by_cases hexpiry : row.expiresAt ≤ env.clock (w.ticks + 1)
  · exact hnone _ ha.now.now (by simp [currentHold, Tx.bind_run, hheld, hdeadline, hexpiry])
  refine ⟨_, _, by simp [currentHold, Tx.bind_run, hheld, hdeadline, hexpiry]; rfl, ha.now.now, ?_⟩
  intro found hfound
  split at hfound
  · cases hfound
  rename_i member hmember
  split at hfound
  · cases hfound
  rename_i hgen
  split at hfound
  · rename_i husable
    cases hfound
    obtain ⟨hgen, hstate⟩ : member.generation = row.generation
        ∧ (member.state = .ready ∨ member.state = .cooling) := by tauto
    exact ⟨member, _, ⟨w.ticks, Nat.le_refl _, Nat.lt_add_of_pos_right Nat.two_pos, rfl⟩,
      hheld, Nat.lt_of_not_le hdeadline, hmember, hgen, hstate, husable⟩
  · cases hfound

theorem currentHold_reads (held : HeldLease) (w : World) :
    (currentHold env held w).2.Ahead w := by
  obtain ⟨_, _, hrun, ha, -⟩ := currentHold_cases env held w
  rw [hrun]
  exact ha

theorem currentHold_ok {held : HeldLease} {res : Option Db.JoinedHold} {w' : World}
    (h : currentHold env held w = (.ok res, w')) (hsome : res.isSome) (ha : w.Ahead w₀) :
    ∃ row member t, Reading env w₀ w' t ∧ w₀.db.InForce held row member t := by
  obtain ⟨_, _, hrun, -, hforce⟩ := currentHold_cases env held w
  obtain ⟨rfl, rfl⟩ := by simpa using hrun.symm.trans h
  obtain ⟨row, hrow⟩ := Option.isSome_iff_exists.mp hsome
  obtain ⟨member, t, ht, hforce⟩ := hforce row hrow
  exact ⟨row, member, t, ht.widen ha.before (.refl _), ha.db ▸ hforce⟩

theorem heldRow_kind {db : Db} {held : HeldLease} {row : Db.JoinedHold}
    (h : db.heldRow held = some row) : row.callerId = held.callerId
      ∧ row.memberIdentity = held.memberIdentity := by
  have := (Option.filter_eq_some_iff.mp h).2
  simp only [Bool.and_eq_true, decide_eq_true_eq] at this
  exact ⟨this.2, this.1⟩

theorem via_renewLease (hA : ∀ st, Stmt.Upkeep st → A st) {held : HeldLease}
    (hr : ∀ t expiresAt, A (.renewLease held t expiresAt)) (ha : w.Ahead w₀)
    (hkind : held.kind = .lease)
    (hforce : ∃ row member t, Reading env w₀ w t ∧ w₀.db.InForce held row member t) :
    Via (Step env A) w₀ (renewLease env held) w := by
  obtain ⟨row, member, t, ht, hforce⟩ := hforce
  simp only [renewLease, via_now, via_select]
  refine via_exec_bind (hr _ _) ha.now ?_ ?_
  · exact ⟨hkind, row, member, t,
      ht.widen (.refl _) (World.Ahead.refl w).now.before, hforce⟩
  · split
    · exact via_recordEvent hA _ (.refl _)
    · exact via_return (.refl _)

theorem via_finish (hA : ∀ st, Stmt.Upkeep st → A st) {held : HeldLease} {success : Bool}
    (hr : ∀ t expiresAt, success = true → A (.renewLease held t expiresAt))
    (hd : A (.deleteHold held)) (ha : w.Ahead w₀) :
    Via (Step env A) w₀ (finish env held success) w := by
  refine via_transaction ha ?_
  simp only [via_select]
  split
  · exact via_return ha
  have htail : ∀ w₀ w : World, w.Ahead w₀ → Via (Step env A) w₀ (do
      exec (.deleteHold held)
      reclaim env) w := by
    intro w₀ w ha
    exact via_exec_bind hd ha trivial (via_reclaim hA (.refl _))
  split
  · rename_i hrenew
    simp only [Bool.and_eq_true, decide_eq_true_eq] at hrenew
    refine via_reads_bind ha (currentHold_reads held w) fun current w₁ hcurrent ha₁ hdb => ?_
    split
    · rename_i hsome
      refine .bind (via_renewLease hA (fun t e => hr t e hrenew.1) ha₁ ?_
        (currentHold_ok hcurrent hsome ha)) fun _ w₂ _ => htail w₂ w₂ (.refl w₂)
      cases hkind : held.kind with
      | lease => rfl
      | catalog => exact absurd hkind hrenew.2
    · exact htail w₀ w₁ ha₁
  · simp only [via_pure, Option.isSome_none, Bool.false_eq_true, if_false]
    exact htail w₀ w ha

theorem via_release (hA : ∀ st, Stmt.Upkeep st → A st) {leaseId : String} (ha : w.Ahead w₀) :
    Via (Step env A) w₀ (release env leaseId) w := by
  refine via_transaction ha ?_
  simp only [via_select]
  split
  · exact via_throwPool ha
  rename_i lease hlease
  simp only [via_hasHolds]
  split
  · exact via_throwPool ha.now
  rename_i hheld
  refine via_exec_bind (hA _ trivial) ha.now ?_ (via_recordEvent hA _ (.refl _))
  refine ⟨lease.memberIdentity, ha.unheld env (by simpa using hheld), fun _ _ _ => ?_⟩
  rw [ha.db] at hlease
  exact ⟨lease, List.mem_of_find?_eq_some hlease, by simpa using List.find?_some hlease, rfl⟩

theorem via_releaseInactive {identity : String} (hd : A (.deleteLeaseOf identity))
    (ha : w.Ahead w₀) : Via (Step env A) w₀ (releaseInactive env identity) w := by
  refine via_transaction ha ?_
  simp only [via_hasHolds]
  split
  · exact via_return ha.now
  · rename_i hheld
    exact via_exec hd ha.now (ha.unheld env (by simpa using hheld))

/-- `releaseInactive` deletes leases and their holds and nothing else. -/
theorem releaseInactive_cases (env : Env) (identity : String) (w : World) :
    ∃ w', releaseInactive env identity w = (.ok (), w') ∧ w.Before w'
      ∧ (w'.db = w.db ∨ w'.db = (Stmt.deleteLeaseOf identity).apply w.db) := by
  have hb := (World.Ahead.refl w).now.before
  cases hheld : w.db.hasHolds identity (env.clock w.ticks) with
  | true =>
      refine ⟨{ w with ticks := w.ticks + 1 }, ?_, hb, .inl rfl⟩
      simp [releaseInactive, transaction, Tx.transaction, Tx.bind_run, hasHolds, hheld]
  | false =>
      refine ⟨{ w with ticks := w.ticks + 1, db := (Stmt.deleteLeaseOf identity).apply w.db }, ?_,
        ⟨hb.ticks, hb.uuids⟩, .inr rfl⟩
      simp [releaseInactive, transaction, Tx.transaction, Tx.bind_run, hasHolds, hheld]

/-! ## Reports -/

theorem reportFence_reads (identity : String) (held : Option HeldLease) (w : World) :
    (reportFence env identity held w).2.Ahead w := by
  cases held with
  | none => exact .refl w
  | some held =>
      refine ahead_of_steps env ?_
      change Via _ w _ w
      simp only [reportFence]
      split
      · exact via_return (.refl w)
      · exact via_reads_bind (.refl w) (currentHold_reads held w) fun _ _ _ ha _ => via_return ha

theorem via_quarantine (hA : ∀ st, Stmt.Upkeep st → A st) {identity code : String}
    {held : Option HeldLease}
    (hu : ∀ patch t b, patch.Retiring w₀.db identity → patch.attemptId = none →
      A (.updateMember identity patch t b))
    (ha : w.Ahead w₀) :
    Via (Step env A) w₀ (quarantine env identity code held) w := by
  refine via_transaction ha ?_
  refine via_reads_bind ha (reportFence_reads _ _ w) fun _ w₁ _ ha _ => ?_
  split
  · exact via_return ha
  simp only [via_select]
  split
  · exact via_return ha
  split
  · exact via_return ha
  simp only [via_now]
  refine .bind (via_update (fun _ _ => hu _ _ _ ?_ rfl) (fun _ => hA _ trivial) _ _ ha.now)
    fun _ w₂ _ => .bind (via_recordEvent hA _ (.refl _)) fun _ w₃ _ => via_return (.refl w₃)
  exact ⟨⟨.inl rfl, .inl rfl, .inl rfl, .inl rfl⟩,
    fun _ _ _ => keepsOut_of_attempts rfl rfl (Nat.le_refl 3)⟩

theorem via_cool (hA : ∀ st, Stmt.Upkeep st → A st) {identity : String} {seconds : JsNumber}
    {held : Option HeldLease}
    (hu : ∀ patch t b, patch.Retiring w₀.db identity → patch.attemptId = none →
      A (.updateMember identity patch t b))
    (hc : ∀ t, A (.coolCatalogCallers identity t)) (ha : w.Ahead w₀) :
    Via (Step env A) w₀ (cool env identity seconds held) w := by
  refine via_transaction ha ?_
  split
  · exact via_throwPool ha
  refine via_reads_bind ha (reportFence_reads _ _ w) fun _ w₁ _ ha _ => ?_
  split
  · exact via_return ha
  simp only [via_select]
  split
  · exact via_return ha
  rename_i member hmember
  split
  · exact via_return ha
  rename_i hserved
  simp only [via_now]
  refine .bind (via_update (fun _ _ => hu _ _ _ ?_ rfl) (fun _ => hA _ trivial) _ _ ha.now)
    fun _ w₂ _ => via_exec_bind (hc _) (.refl _) trivial
      (.bind (via_recordEvent hA _ (.refl _)) fun _ w₃ _ => via_return (.refl w₃))
  refine ⟨⟨.inr (.inr rfl), .inl rfl, .inl rfl, .inl rfl⟩, fun m hm hex => ?_⟩
  obtain rfl := Option.some.inj (hm.symm.trans (ha.db ▸ hmember))
  rw [not_exhausted_of_served (not_not.mp hserved)] at hex
  cases hex

theorem via_updateAccount {β : Type} {identity : String} {cond : Credentials → Bool}
    {f : Credentials → Credentials} {t : Nat} {k : Bool → StoreM β}
    (hw : ∀ c, A (.writeCredentials identity c t)) (ha : w.Ahead w₀)
    (hno : ∀ w', w'.Ahead w₀ → Via (Step env A) w₀ (k false) w')
    (hyes : ∀ w', Via (Step env A) w' (k true) w') :
    Via (Step env A) w₀ (updateAccount identity cond f t >>= k) w := by
  simp only [updateAccount, via_bind_assoc, via_select]
  split
  · split
    · simp only [via_bind_assoc]
      exact via_exec_bind (hw _) ha trivial (hyes _)
    · exact hno w ha
  · exact hno w ha

theorem via_recoverUnauthorized (hA : ∀ st, Stmt.Upkeep st → A st) {held : HeldLease}
    {expectedToken : String}
    (hu : ∀ patch t b, patch.Retiring w₀.db held.memberIdentity →
      A (.updateMember held.memberIdentity patch t b))
    (hw : ∀ c t, A (.writeCredentials held.memberIdentity c t))
    (hr : ∀ n t, A (.setReauth held.memberIdentity n t)) (ha : w.Ahead w₀) :
    Via (Step env A) w₀ (recoverUnauthorized env held expectedToken) w := by
  refine via_transaction ha ?_
  refine via_reads_bind ha (currentHold_reads _ w) fun res w₁ hcur ha₁ _ => ?_
  split
  · exact via_return ha₁
  rename_i hheld
  obtain ⟨row, member, t, -, hforce⟩ := currentHold_ok hcur
    (Option.isSome_iff_ne_none.mpr fun h => hheld (by rw [h]; rfl)) ha
  simp only [via_select]
  split
  · exact via_return ha₁
  simp only [via_now, invalidateToken]
  refine via_updateAccount (fun c => hw c _) ha₁.now (fun w' ha' => via_return ha') fun w' => ?_
  simp only [Bool.not_true, Bool.false_eq_true, if_false, via_randomUuid]
  refine .bind (via_update (fun _ _ => hu _ _ _ ?_) (fun _ => hA _ trivial) _ _
    (World.Ahead.refl w').draw) fun _ w₂ _ => via_exec_bind (hr _ _) (.refl _) trivial
      (.bind (via_recordEvent hA _ (.refl _)) fun _ w₃ _ => via_return (.refl w₃))
  refine ⟨⟨.inl rfl, .inr (.inr rfl), .inr rfl, .inr rfl⟩, fun m hm hex => ?_⟩
  have hmember := hforce.inventory
  rw [(heldRow_kind hforce.held).2, hm] at hmember
  obtain rfl := Option.some.inj hmember
  rw [not_exhausted_of_served hforce.state] at hex
  cases hex

end GhcpConsole.Pool
