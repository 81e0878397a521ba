import GhcpConsole.Pool.ProvisioningSteps

/-!
# Operations as chains of steps

`Op.permits` lists, statement by statement, which operations may run it; `steps_of_step` is the
result: whatever an operation answers, it has moved the store along a chain of its permitted
steps.
-/

namespace GhcpConsole.Pool

open Tx (Via Traces)

namespace Op

def Reserves : Op → Prop
  | .reserve _ | .reserveDeficit .. => True
  | _ => False

def Elects : Op → Prop
  | .claimOwner _ | .renewOwner _ | .releaseOwner _ => True
  | _ => False

/-- The operations that end with `releaseInactive`. -/
def Releases (identity : String) : Op → Prop
  | .releaseInactive i | .disable i | .retry i => i = identity
  | _ => False

/-- The operations that take a member out of service on somebody's behalf. -/
def Retires (identity : String) : Op → Prop
  | .cool i _ _ | .quarantine i _ _ | .fail i _ _ _ _ | .disable i => i = identity
  | .recoverUnauthorized held _ => held.memberIdentity = identity
  | _ => False

/-- Those that start a new attempt for it. -/
def Renames (identity : String) : Op → Prop
  | .disable i => i = identity
  | .recoverUnauthorized held _ => held.memberIdentity = identity
  | _ => False

/-- The operations that change the credential columns of an account. -/
def Recredentials (identity : String) : Op → Prop
  | .recoverUnauthorized held _ => held.memberIdentity = identity
  | .mutateWorkerCredential i _ _ _ => i = identity
  | .external (.credentials i _) => i = identity
  | _ => False

def permits (op : Op) : Stmt → Prop
  | .updateMember identity patch _ _ => patch.Sweeping
      ∨ (op.Retires identity ∧ patch.Routine
          ∧ (patch.attemptId = none ∨ op.Renames identity))
      ∨ (∃ expected owner, op = .update identity patch expected owner)
      ∨ (∃ fence owner limit, op = .claimLoginDispatch identity fence owner limit
          ∧ patch = { stage := some .oauthDispatch })
  | .deleteLeaseOf identity => op.Releases identity
  | .insertLease row => ∃ aborted timeoutMs, op = .acquire row.callerId aborted timeoutMs
  | .insertHold _ => ∃ caller aborted timeoutMs, op = .acquire caller aborted timeoutMs
  | .insertCatalogHold row => ∃ aborted, op = .acquireCatalog row.callerId aborted
  | .renewLease held _ _ => op = .finish held true
  | .deleteHold held => ∃ success, op = .finish held success
  | .writeCredentials identity _ _ => op.Recredentials identity
  | .setReauth identity _ _ =>
      ∃ held token, op = .recoverUnauthorized held token ∧ held.memberIdentity = identity
  | .coolCatalogCallers identity _ => ∃ seconds held, op = .cool identity seconds held
  | .releaseReservation identity _ =>
      ∃ fence owner outcome, op = .releaseLoginReservation identity fence owner outcome
  | .retryMember identity _ _ _ => op = .retry identity
  | .setNextOrdinal _ | .insertMember _ | .incrementInventory _ => op.Reserves
  | .insertAccount row => op.Reserves ∨ op = .external (.insert row)
  | .deleteAccount identity => op = .external (.delete identity)
  | .setInventoryCount .. => op = .correctInventoryDrift
  | .setPolicy id _ _ _ => ∃ version patch, op = .updateEnterprisePolicy id version patch
  | .updateSettings .. => ∃ version patch, op = .updateSettings version patch
  | .setOwner .. => op.Elects
  | .deleteExpiredHolds _ | .deleteExpiredCatalogHolds _ | .deleteExpiredCooldowns _
  | .wakeCooled _ | .clampLease .. | .deleteLease _ | .insertEvent _ | .trimEvents => True

theorem permits_upkeep (op : Op) {st : Stmt} (h : st.Upkeep) : op.permits st := by
  cases st <;> first | trivial | exact .inl h

end Op


/-! ## Settings, ownership, policies and external writes -/

variable {env : Env} {A : Stmt → Prop} {w₀ w : World}

theorem via_updateSettings (hA : ∀ st, Stmt.Upkeep st → A st) {version : Int}
    {patch : SettingsPatch} (hu : ∀ i l p, A (.updateSettings i l p)) (ha : w.Ahead w₀) :
    Via (Step env A) w₀ (updateSettings env version patch) w := by
  refine via_transaction ha ?_
  simp only [via_select]
  refine via_reads_bind ha (ofExcept_reads _ w) fun next w₁ _ ha _ => ?_
  exact via_exec_bind (hu _ _ _) ha trivial (.bind (via_recordEvent hA _ (.refl _))
    fun _ w₂ _ => via_idle (.refl w₂) (.refl w₂))

theorem via_setOwner {test : Db → Nat → Bool} {owner : String}
    (hs : ∀ o u, A (.setOwner o u)) (ha : w.Ahead w₀) : Via (Step env A) w₀ (do
      let t ← now env
      let ok ← select fun db => test db t
      if ok then
        exec (.setOwner (some owner) (t + 30000))
        pure true
      else pure false) w := by
  simp only [via_now, via_select]
  split
  · exact via_exec_bind (hs _ _) ha.now trivial (via_return (.refl _))
  · exact via_return ha.now

theorem via_releaseOwner {owner : String} (hs : ∀ o u, A (.setOwner o u)) (ha : w.Ahead w₀) :
    Via (Step env A) w₀ (releaseOwner owner) w := by
  simp only [releaseOwner, via_select]
  split
  · exact via_exec (hs _ _) ha trivial
  · exact via_return ha

theorem via_updateEnterprisePolicy (hA : ∀ st, Stmt.Upkeep st → A st) {id : String}
    {version : Int} {patch : PolicyPatch} (hp : ∀ m s t, A (.setPolicy id m s t))
    (ha : w.Ahead w₀) :
    Via (Step env A) w₀ (updateEnterprisePolicy env id version patch) w := by
  refine via_transaction ha ?_
  simp only [via_select]
  split
  · exact via_throwPool ha
  refine via_reads_bind ha (ofExcept_reads _ w) fun next w₁ _ ha _ => ?_
  simp only [via_now]
  refine via_exec_bind (hp _ _ _) ha.now trivial (.bind (via_recordEvent hA _ (.refl _))
    fun _ w₂ _ => ?_)
  simp only [via_select]
  split
  · exact via_return (.refl w₂)
  · exact via_throwPool (.refl w₂)

theorem via_correctInventoryDrift (hA : ∀ st, Stmt.Upkeep st → A st)
    (hs : ∀ id n, A (.setInventoryCount id n)) (ha : w.Ahead w₀) :
    Via (Step env A) w₀ (correctInventoryDrift env) w := by
  have hloop : ∀ (f : InventoryDrift → StoreM PUnit), (∀ d w, Via (Step env A) w (f d) w) →
      ∀ (l : List InventoryDrift) w, Via (Step env A) w (l.forM f) w := fun f hf l w =>
    Via.forM (fun _ _ => True) (fun d _ w _ => hf d w) (fun _ _ _ _ _ _ => trivial) l w trivial
  refine via_transaction ha (via_settled ha ?_)
  simp only [correctInventoryCounts, via_bind_assoc, via_select]
  refine .bind (hloop _ (fun d w => via_exec (hs _ _) (.refl w) trivial) _ w) fun _ w₁ _ => ?_
  simp only [via_pure]
  refine .bind (hloop _ (fun d w => via_recordEvent hA _ (.refl w)) _ w₁) fun _ w₂ _ => ?_
  exact via_return (.refl w₂)

theorem via_externalWrite {write : ExternalWrite}
    (hc : ∀ i c t, write = .credentials i c → A (.writeCredentials i c t))
    (hi : ∀ row, write = .insert row → A (.insertAccount row))
    (hd : ∀ i, write = .delete i → A (.deleteAccount i)) (ha : w.Ahead w₀) :
    Via (Step env A) w₀ (externalWrite env write) w := by
  cases write with
  | credentials identity c =>
      simp only [externalWrite, via_now, via_select]
      split
      · exact via_exec (hc _ _ _ rfl) ha.now trivial
      · exact via_return ha.now
  | insert row =>
      refine via_reads_bind ha (require_reads _ _ _) fun _ w₁ hreq ha₁ _ => ?_
      obtain ⟨hfresh, rfl⟩ := require_ok hreq
      simp only [Bool.and_eq_true, Option.isNone_iff_eq_none] at hfresh
      exact via_exec (hi _ rfl) ha₁ ⟨ha.db ▸ hfresh.1, ha.db ▸ hfresh.2⟩
  | delete identity =>
      refine via_reads_bind ha (require_reads _ _ _) fun _ w₁ hreq ha₁ _ => ?_
      obtain ⟨hnone, rfl⟩ := require_ok hreq
      refine via_exec (hd _ rfl) ha₁ ?_
      change w₀.db.inventory identity = none
      rw [← ha.db]
      exact Option.isNone_iff_eq_none.mp hnone

/-! ## The result -/

theorem via_reply {α : Type} {m : StoreM α} {f : α → Reply} (h : Via (Step env A) w m w) :
    Via (Step env A) w (do
      let a ← m
      pure (f a)) w :=
  .bind h fun _ w₁ _ => via_return (.refl w₁)

/-- The world after an operation that ends with a reply is that of its program. -/
theorem reply_run {α : Type} {m : StoreM α} {f : α → Reply} (w : World) :
    ((do
      let a ← m
      pure (f a)) w : Except StoreError Reply × World).2 = (m w).2 := by
  rw [Tx.bind_run]
  rcases m w with ⟨_ | _, _⟩ <;> rfl

/-- Every operation is a chain of its permitted steps. -/
theorem steps_of_step (env : Env) (w : World) (op : Op) :
    Steps env op.permits w (step env w op) := by
  have hA : ∀ st, Stmt.Upkeep st → op.permits st := fun st => op.permits_upkeep
  have ha := World.Ahead.refl w
  change Via _ w (op.exec env) w
  cases op with
  | acquire caller aborted timeoutMs =>
      exact via_reply (via_acquire hA (fun row h => ⟨aborted, timeoutMs, by rw [h]⟩)
        (fun row => ⟨caller, aborted, timeoutMs, rfl⟩) ha)
  | acquireCatalog caller aborted =>
      exact via_reply (via_acquireCatalog hA (fun row h => ⟨aborted, by rw [h]⟩) ha)
  | heartbeat held =>
      refine via_reply (.bind (via_idle (currentHold_reads held w) ha) fun _ w₁ _ => ?_)
      exact via_return (.refl w₁)
  | finish held success =>
      exact via_reply (via_finish hA (fun t e hs => by rw [hs]; rfl) ⟨success, rfl⟩ ha)
  | release leaseId => exact via_reply (via_release hA ha)
  | releaseInactive identity => exact via_reply (via_releaseInactive rfl ha)
  | reclaim => exact via_reply (via_reclaim hA ha)
  | cool identity seconds held =>
      exact via_reply (via_cool hA
        (fun _ _ _ hp ha => .inr (.inl ⟨rfl, hp.toRoutine, .inl ha⟩)) (fun t => ⟨seconds, held, rfl⟩) ha)
  | quarantine identity code held =>
      exact via_reply (via_quarantine hA
        (fun _ _ _ hp ha => .inr (.inl ⟨rfl, hp.toRoutine, .inl ha⟩)) ha)
  | recoverUnauthorized held token =>
      exact via_reply (via_recoverUnauthorized hA
        (fun _ _ _ hp => .inr (.inl ⟨rfl, hp.toRoutine, .inr rfl⟩))
        (fun _ _ => rfl) (fun _ _ => ⟨held, token, rfl, rfl⟩) ha)
  | update identity patch expected owner =>
      exact via_reply (via_update (fun _ _ => .inr (.inr (.inl ⟨expected, owner, rfl⟩)))
        (fun _ => trivial) _ _ ha)
  | fail identity code expected owner terminal =>
      exact via_reply (via_fail hA
        (fun _ _ _ hp ha => .inr (.inl ⟨rfl, hp.toRoutine, .inl ha⟩)) ha)
  | disable identity =>
      exact via_reply (via_disable hA
        (fun _ _ _ hp => .inr (.inl ⟨rfl, hp.toRoutine, .inr rfl⟩)) rfl ha)
  | retry identity => exact via_reply (via_retry hA rfl (fun _ _ _ => rfl) ha)
  | pending excluded => exact via_reply (via_pending hA ha)
  | reserve eligible =>
      refine via_reply (via_reserve hA (fun st hst => ?_) ha)
      cases st <;> first | trivial | exact .inl trivial
  | reserveDeficit owner eligible =>
      refine via_reply (via_reserveDeficit hA (fun st hst => ?_) ha)
      cases st <;> first | trivial | exact .inl trivial
  | mutateWorkerCredential identity fence owner mutation =>
      exact via_reply (via_mutateWorkerCredential (fun _ _ => rfl) ha)
  | claimLoginDispatch identity fence owner limit =>
      exact via_reply (via_claimLoginDispatch
        (fun _ _ => .inr (.inr (.inr ⟨fence, owner, limit, rfl, rfl⟩))) (fun _ => trivial) ha)
  | releaseLoginReservation identity fence owner outcome =>
      exact via_reply (via_releaseLoginReservation (fun _ => ⟨fence, owner, outcome, rfl⟩) ha)
  | claimOwner owner => exact via_reply (via_setOwner (fun _ _ => trivial) ha)
  | renewOwner owner => exact via_reply (via_setOwner (fun _ _ => trivial) ha)
  | releaseOwner owner => exact via_reply (via_releaseOwner (fun _ _ => trivial) ha)
  | updateSettings version patch =>
      exact via_reply (via_updateSettings hA (fun _ _ _ => ⟨version, patch, rfl⟩) ha)
  | updateEnterprisePolicy id version patch =>
      exact via_reply (via_updateEnterprisePolicy hA (fun _ _ _ => ⟨version, patch, rfl⟩) ha)
  | correctInventoryDrift =>
      exact via_reply (via_correctInventoryDrift hA (fun _ _ => rfl) ha)
  | event fields => exact via_reply (via_recordEvent hA fields ha)
  | external write =>
      refine via_reply (via_externalWrite (fun i c t h => ?_) (fun row h => .inr (by rw [h]))
        (fun i h => by rw [h]; rfl) ha)
      rw [h]
      rfl

/-- A property that every guarded statement keeps holds along every run. -/
theorem run_invariant {env : Env} {P : World → Prop}
    (hP : ∀ (op : Op) v v', Step env op.permits v v' → P v → P v') (w : World) (hw : P w)
    (ops : List Op) : P (run env w ops) := by
  induction ops generalizing w with
  | nil => exact hw
  | cons op ops ih => exact ih _ ((steps_of_step env w op).invariant (hP op) hw)

end GhcpConsole.Pool
