import GhcpConsole.Pool.AdmissionSteps

/-!
# Reservation, provisioning rows and operator actions as steps

The scan of a reservation raises `next_ordinal` before it looks at a name, so a name that is
skipped, or whose insertion fails, is not tried again.
-/

namespace GhcpConsole.Pool

open Tx (Via Traces)

variable {env : Env} {A : Stmt → Prop} {w₀ w : World}

/-! ## Reservation -/

theorem via_planBatch {β : Type} (hA : ∀ st, Stmt.Upkeep st → A st) {eligible : List String}
    {limit : Nat} {k : List String → StoreM β} (ha : w.Ahead w₀)
    (hk : ∀ plan w', Via (Step env A) w' (k plan) w') :
    Via (Step env A) w₀ (planBatch env eligible limit >>= k) w := by
  simp only [planBatch, via_bind_assoc, via_select]
  refine .bind (via_reclaim hA ha) fun _ w₁ _ => ?_
  simp only [via_bind_assoc, via_now, via_select]
  refine via_reads_bind (World.Ahead.refl w₁).now (ofExcept_reads _ _) fun plan w₂ _ ha₂ _ => ?_
  exact via_settled ha₂ (hk plan w₂)

theorem via_insertMember {identity enterpriseId : String} {ordinal : Nat}
    (hacc : ∀ row, A (.insertAccount row)) (hmem : ∀ row, A (.insertMember row))
    (hinc : ∀ id, A (.incrementInventory id)) (ha : w.Ahead w₀)
    (hord : ordinal < w.db.settings.nextOrdinal) :
    Via (Step env A) w₀ (insertMember env identity ordinal enterpriseId) w := by
  simp only [insertMember, via_now]
  refine via_reads_bind ha.now (require_reads _ _ _) fun _ w₁ hreq ha₁ _ => ?_
  obtain ⟨hfresh, rfl⟩ := require_ok hreq
  simp only [Bool.and_eq_true, Option.isNone_iff_eq_none] at hfresh
  refine via_exec_bind (hacc _) ha₁ ⟨ha.db ▸ hfresh.1, ha.db ▸ hfresh.2⟩ ?_
  simp only [via_randomUuid]
  let v : World := { w with
    db := (Stmt.insertAccount (newAccount identity enterpriseId (env.clock w.ticks))).apply w.db
    ticks := w.ticks + 1 }
  have hv : World.Ahead { v with uuids := v.uuids + 1 } v := (World.Ahead.refl v).draw
  refine via_reads_bind hv (require_reads _ _ _) fun _ w₂ hreq₂ ha₂ _ => ?_
  obtain ⟨hfresh₂, rfl⟩ := require_ok hreq₂
  simp only [Bool.and_eq_true, Option.isNone_iff_eq_none, Bool.not_eq_true', List.any_eq_false,
    decide_eq_true_eq] at hfresh₂
  refine via_exec_bind (hmem _) ha₂ ?_ (via_exec (hinc _) (.refl _) trivial)
  refine ⟨hfresh₂.1, ?_, hfresh.2, hfresh₂.2, hord, _, _, (World.Ahead.refl v).drawn env, rfl⟩
  have hname : (newAccount identity enterpriseId (env.clock w.ticks)).identity = identity := rfl
  simp only [newMember, Db.account, Stmt.apply, List.find?_append, Option.isSome_or]
  simp [hname]

theorem via_reserveFrom (hA : ∀ st, Stmt.Upkeep st → A st) {enterpriseId : String}
    (hacc : ∀ row, A (.insertAccount row)) (hmem : ∀ row, A (.insertMember row))
    (hinc : ∀ id, A (.incrementInventory id)) (hnext : ∀ n, A (.setNextOrdinal n)) :
    ∀ (left ordinal : Nat) (w : World), w.db.settings.nextOrdinal ≤ ordinal →
      Via (Step env A) w (reserveFrom env enterpriseId left ordinal) w
  | 0, _, w, _ => via_return (.refl w)
  | left + 1, ordinal, w, hord => by
      simp only [reserveFrom]
      refine via_exec_bind (hnext _) (.refl w) (Nat.lt_succ_of_le hord) ?_
      simp only [via_select]
      split
      · exact via_reserveFrom hA hacc hmem hinc hnext left (ordinal + 1) _ (Nat.le_refl _)
      refine .bind (via_insertMember hacc hmem hinc (.refl _) (Nat.lt_succ_self _))
        fun _ w₁ _ => .bind (via_recordEvent hA _ (.refl w₁)) fun _ w₂ _ => ?_
      simp only [via_select]
      split
      · exact via_return (.refl w₂)
      · exact via_idle (.refl w₂) (.refl w₂)

/-- The statements of a reservation. -/
def Stmt.Reserving : Stmt → Prop
  | .setNextOrdinal _ | .insertAccount _ | .insertMember _ | .incrementInventory _ => True
  | _ => False

theorem via_reserveCandidate (hA : ∀ st, Stmt.Upkeep st → A st)
    (hr : ∀ st, Stmt.Reserving st → A st) (enterpriseId : String) (w : World) :
    Via (Step env A) w (reserveCandidate env enterpriseId) w := by
  simp only [reserveCandidate, via_select]
  exact via_reserveFrom hA (fun _ => hr _ trivial) (fun _ => hr _ trivial)
    (fun _ => hr _ trivial) (fun _ => hr _ trivial) _ _ w (Nat.le_refl _)

theorem via_reserve (hA : ∀ st, Stmt.Upkeep st → A st) (hr : ∀ st, Stmt.Reserving st → A st)
    {eligible : List String} (ha : w.Ahead w₀) :
    Via (Step env A) w₀ (reserve env eligible) w := by
  refine via_reads_bind ha (ofExcept_reads _ w) fun eligible w₁ _ ha _ => ?_
  refine .bind (via_transaction ha ?_) fun _ w₂ _ => via_idle (ofExcept_reads _ w₂) (.refl w₂)
  refine via_planBatch hA ha fun plan w₂ => ?_
  split
  · exact via_return (.refl w₂)
  refine .bind (via_reserveCandidate hA hr _ w₂) fun res w₃ _ => ?_
  split <;> exact via_return (.refl w₃)

theorem via_reserveAll (hA : ∀ st, Stmt.Upkeep st → A st)
    (hr : ∀ st, Stmt.Reserving st → A st) :
    ∀ (plan : List String) (w : World), Via (Step env A) w (reserveAll env plan) w
  | [], w => via_return (.refl w)
  | enterpriseId :: rest, w => by
      refine .bind (via_reserveCandidate hA hr enterpriseId w) fun res w₁ _ => ?_
      split
      · exact via_return (.refl w₁)
      · exact .bind (via_reserveAll hA hr rest w₁) fun _ w₂ _ => via_return (.refl w₂)

theorem matchesOwner_reads (owner : Option String) (w : World) :
    (matchesOwner env owner w).2.Ahead w := by
  obtain ⟨b, n, hn, hrun, -⟩ := matchesOwner_run env owner w
  rw [hrun]
  exact ⟨⟨hn, Nat.le_refl _⟩, rfl⟩

theorem via_reserveDeficit (hA : ∀ st, Stmt.Upkeep st → A st)
    (hr : ∀ st, Stmt.Reserving st → A st) {owner : String} {eligible : List String}
    (ha : w.Ahead w₀) : Via (Step env A) w₀ (reserveDeficit env owner eligible) w := by
  refine via_reads_bind ha (ofExcept_reads _ w) fun eligible w₁ _ ha _ => ?_
  refine via_transaction ha ?_
  refine via_reads_bind ha (matchesOwner_reads _ w₁) fun owned w₂ _ ha _ => ?_
  split
  · exact via_return ha
  · exact via_planBatch hA ha fun plan w₃ => via_reserveAll hA hr plan w₃

/-! ## Work selection, failure, disabling and retry -/

theorem via_pending (hA : ∀ st, Stmt.Upkeep st → A st) {excluded : List String}
    (ha : w.Ahead w₀) : Via (Step env A) w₀ (pending env excluded) w := by
  refine .bind (.pure _ (.idle ha.before ha.db)) fun selections w₁ hrun => ?_
  obtain ⟨-, rfl⟩ := by simpa using hrun
  refine .bind (via_transaction (.refl w) (.bind (via_reclaim hA (.refl w)) fun _ w₁ _ => ?_))
    fun row w₁ _ => ?_
  · simp only [via_select]
    split
    · exact via_return (.refl w₁)
    · simp only [via_now]
      exact via_idle (.refl _) (World.Ahead.refl w₁).now
  · split
    · refine .bind (.write (.idle ⟨Nat.le_refl _, Nat.le_refl _⟩ rfl)) fun _ w₂ _ => ?_
      exact via_return (.refl w₂)
    · exact via_return (.refl w₁)

theorem via_fail (hA : ∀ st, Stmt.Upkeep st → A st) {identity code : String}
    {expected : Option InventoryFence} {owner : Option String} {terminal : Bool}
    (hu : ∀ patch t b, patch.Retiring w₀.db identity → patch.attemptId = none →
      A (.updateMember identity patch t b))
    (ha : w.Ahead w₀) : Via (Step env A) w₀ (fail env identity code expected owner terminal) w := by
  refine via_transaction ha ?_
  simp only [via_select]
  split
  · exact via_return ha
  rename_i row hrow
  split
  · exact via_return ha
  rename_i hpassed
  refine via_reads_bind ha (matchesOwner_reads _ w) fun owned w₁ _ ha₁ _ => ?_
  split
  · exact via_return ha₁
  simp only [via_now]
  refine .bind (via_update (fun _ _ => hu _ _ _ ?_ rfl) (fun _ => hA _ trivial) _ _ ha₁.now)
    fun _ w₂ _ => via_recordEvent hA _ (.refl w₂)
  refine ⟨⟨.inl rfl, .inl rfl, .inl rfl, .inl rfl⟩, fun m hm hex => ?_⟩
  obtain rfl := Option.some.inj (hm.symm.trans (ha.db ▸ hrow))
  refine keepsOut_of_attempts rfl rfl ?_
  simp only [Bool.or_eq_true, decide_eq_true_eq, not_or] at hpassed
  simp only [exhausted, hpassed.1, decide_false, Bool.false_or, Bool.and_eq_true,
    decide_eq_true_eq] at hex
  split <;> omega

theorem via_disable (hA : ∀ st, Stmt.Upkeep st → A st) {identity : String}
    (hu : ∀ patch t b, patch.Retiring w₀.db identity → A (.updateMember identity patch t b))
    (hd : A (.deleteLeaseOf identity)) (ha : w.Ahead w₀) :
    Via (Step env A) w₀ (disable env identity) w := by
  refine via_transaction ha ?_
  simp only [via_select]
  split
  · exact via_throwPool ha
  split
  · exact via_return ha
  simp only [via_randomUuid]
  refine .bind (via_update (fun _ _ => hu _ _ _ ?_) (fun _ => hA _ trivial) _ _ ha.draw)
    fun _ w₂ _ => .bind (via_releaseInactive hd (.refl w₂))
      fun _ w₃ _ => via_recordEvent hA _ (.refl w₃)
  exact ⟨⟨.inr (.inl rfl), .inl rfl, .inl rfl, .inl rfl⟩, fun _ _ _ m _ _ => by
    simp [exhausted, Patch.apply]⟩

theorem via_retry (hA : ∀ st, Stmt.Upkeep st → A st) {identity : String}
    (hd : A (.deleteLeaseOf identity)) (hr : ∀ a s t, A (.retryMember identity a s t))
    (ha : w.Ahead w₀) : Via (Step env A) w₀ (retry env identity) w := by
  refine via_transaction ha ?_
  simp only [via_select]
  split
  · exact via_throwPool ha
  rename_i row hrow
  simp only [via_hasHolds]
  split
  · exact via_throwPool ha.now
  rename_i hstate
  split
  · exact via_throwPool ha.now
  rename_i hmanual
  refine .bind (via_releaseInactive hd ha.now) fun _ w₁ hrun => ?_
  simp only [via_randomUuid, via_now]
  refine via_exec_bind (hr _ _ _) (World.Ahead.refl w₁).draw.now ?_ (via_recordEvent hA _ (.refl _))
  refine ⟨⟨w₁.uuids, Nat.le_refl _, Nat.lt_succ_self _, rfl⟩, row, ?_, ?_, by simpa using hmanual,
    rfl⟩
  · obtain ⟨w₂, hrun₂, -, hdb⟩ := releaseInactive_cases env identity
      { w with ticks := w.ticks + 1 }
    obtain ⟨-, rfl⟩ := Prod.mk.injEq .. ▸ hrun₂.symm.trans hrun
    rcases hdb with hdb | hdb <;> rw [hdb] <;> exact hrow
  · simp only [Bool.or_eq_true, Bool.not_eq_true', not_or, Bool.not_eq_false,
      decide_eq_true_eq] at hstate
    exact hstate.2

/-! ## Fenced worker writes -/

theorem workerGuard_reads (identity : String) (stage : Stage) (fence : WorkerCredentialFence)
    (owner : String) (w : World) : (workerGuard env identity stage fence owner w).2.Ahead w := by
  refine ahead_of_steps env ?_
  change Via _ w _ w
  simp only [workerGuard, via_select]
  split
  · exact via_return (.refl w)
  split
  · exact via_return (.refl w)
  refine via_reads_bind (.refl w) (matchesOwner_reads _ w) fun owned w₁ _ ha _ => ?_
  split
  · exact via_return ha
  · simp only [via_hasHolds]
    exact via_return ha.now

theorem via_applyMutation {identity : String} {t : Nat} {mutation : WorkerCredentialMutation}
    (hw : ∀ c, A (.writeCredentials identity c t)) (ha : w.Ahead w₀) :
    Via (Step env A) w₀ (applyMutation identity t mutation) w := by
  have h : ∀ cond f, Via (Step env A) w₀ (updateAccount identity cond f t) w := by
    intro cond f
    simp only [updateAccount, via_select]
    split
    · split
      · exact via_exec_bind (hw _) ha trivial (via_return (.refl _))
      · exact via_return ha
    · exact via_return ha
  cases mutation <;> exact h _ _

theorem via_mutateWorkerCredential {identity : String} {fence : WorkerCredentialFence}
    {owner : String} {mutation : WorkerCredentialMutation}
    (hw : ∀ c t, A (.writeCredentials identity c t)) (ha : w.Ahead w₀) :
    Via (Step env A) w₀ (mutateWorkerCredential env identity fence owner mutation) w := by
  refine via_transaction ha ?_
  refine via_reads_bind ha (workerGuard_reads _ _ _ _ w) fun admitted w₁ _ ha _ => ?_
  split
  · exact via_return ha
  · simp only [via_now]
    exact via_applyMutation (fun c => hw c _) ha.now

theorem via_claimLoginDispatch {identity : String} {fence : WorkerCredentialFence}
    {owner : String} {limit : Int}
    (hu : ∀ t i, A (.updateMember identity { stage := some .oauthDispatch } t i))
    (hc : ∀ t, A (.clampLease identity t)) (ha : w.Ahead w₀) :
    Via (Step env A) w₀ (claimLoginDispatch env identity fence owner limit) w := by
  unfold claimLoginDispatch
  split
  · exact via_throwPool ha
  refine via_transaction ha ?_
  refine via_reads_bind ha (workerGuard_reads _ _ _ _ w) fun admitted w₁ _ ha _ => ?_
  split
  · exact via_return ha
  simp only [via_select]
  split
  · exact via_return ha
  · exact via_update hu hc _ _ ha

theorem via_releaseLoginReservation {identity : String} {fence : Inventory} {owner : String}
    {outcome : LoginReservationOutcome} (hr : ∀ stage, A (.releaseReservation identity stage))
    (ha : w.Ahead w₀) :
    Via (Step env A) w₀ (releaseLoginReservation env identity fence owner outcome) w := by
  refine via_transaction ha ?_
  simp only [via_select]
  split
  · exact via_return ha
  rename_i row hrow
  split
  · exact via_return ha
  rename_i hguard
  refine via_reads_bind ha (matchesOwner_reads _ w) fun owned w₁ _ ha₁ hdb => ?_
  split
  · exact via_return ha₁
  simp only [via_select]
  split
  · exact via_return ha₁
  simp only [via_hasHolds]
  split
  · exact via_return ha₁.now
  refine via_exec_bind (hr _) ha₁.now ⟨row, ha.db ▸ hrow, ?_⟩ (via_return (.refl _))
  simp only [Bool.or_eq_true, Bool.not_eq_true', not_or, Bool.not_eq_false] at hguard
  refine ⟨hguard.1.1, hguard.1.2, ?_⟩
  by_cases h : outcome = .success <;> simp [h]

end GhcpConsole.Pool
