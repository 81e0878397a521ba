import GhcpConsole.Pool.Generation

/-!
# Verification

`verified_at` is written by `update` alone and erased by the credential fence, so a member whose
verification stands has the credential columns it had when the verification was written. The law
is stated for any property of those columns (`Db.VerifiedBy`): it holds in every run in which
`update` verifies only members that have the property.
-/

namespace GhcpConsole.Pool

variable {env : Env} {A : Stmt → Prop} {w w' : World}

/-- Every verified member's credential columns have the property `Q`. -/
def Db.VerifiedBy (Q : String → Credentials → Prop) (db : Db) : Prop :=
  ∀ identity m, db.inventory identity = some m → m.verifiedAt.isSome →
    ∃ c, db.credentials identity = some c ∧ Q identity c

/-- The patch sets `verified_at`. -/
def Patch.Verifies (p : Patch) : Prop := ∃ t, p.verifiedAt = some (some t)

/-- The member was verified before the statement, or the statement verifies it; either way its
credential columns are as they were. -/
structure Verifying (db db' : Db) (st : Stmt) (identity : String) : Prop where
  credentials : db'.credentials identity = db.credentials identity
  source : (∃ m, db.inventory identity = some m ∧ m.verifiedAt.isSome)
    ∨ ∃ patch t b, st = .updateMember identity patch t b ∧ patch.Verifies

/-- A rewrite of one row that does not verify it. -/
theorem verifying_mapMember {db : Db} {st : Stmt} {f : Inventory → Inventory}
    {target identity : String} {m' : Inventory} (hf : ∀ m, (f m).identity = m.identity)
    (hkeep : ∀ m, (f m).verifiedAt.isSome → m.verifiedAt.isSome)
    (hm' : (db.mapMember target f).inventory identity = some m') (hv : m'.verifiedAt.isSome) :
    Verifying db (db.mapMember target f) st identity := by
  rw [inventory_mapMember f hf, Option.map_eq_some_iff] at hm'
  obtain ⟨m, hm, rfl⟩ := hm'
  refine ⟨rfl, .inl ⟨m, hm, ?_⟩⟩
  split at hv
  · exact hkeep m hv
  · exact hv

theorem verifying_writeCredentials {db : Db} {st : Stmt} {target identity : String}
    {c : Credentials} {now : Nat} {m' : Inventory}
    (hm' : (db.writeCredentials target c now).inventory identity = some m')
    (hv : m'.verifiedAt.isSome) :
    Verifying db (db.writeCredentials target c now) st identity := by
  have hcred := credentials_writeCredentials db target identity c now
  by_cases hfires : identity = target ∧ ∃ a, db.account target = some a ∧ a.credentials ≠ c
  · -- the fence has erased the verification
    obtain ⟨rfl, a, hacc, hne⟩ := hfires
    simp only [Db.writeCredentials, hacc, if_neg hne, inventory_fence] at hm'
    obtain ⟨m, hm, rfl⟩ := Option.map_eq_some_iff.mp hm'
    have hid : m.identity = identity := by simpa using List.find?_some hm
    simp [hid] at hv
  · refine ⟨?_, .inl ?_⟩
    · rw [hcred]
      by_cases htarget : identity = target
      · subst htarget
        cases hacc : db.account identity with
        | none => simp [Db.credentials, hacc]
        | some a =>
            have hsame : a.credentials = c := by
              by_contra hne
              exact hfires ⟨rfl, a, hacc, hne⟩
            simp [Db.credentials, hacc, hsame]
      · simp [htarget]
    · unfold Db.writeCredentials at hm'
      split at hm'
      · rename_i a hacc
        split at hm'
        · exact ⟨m', hm', hv⟩
        · rw [inventory_fence] at hm'
          obtain ⟨m, hm, rfl⟩ := Option.map_eq_some_iff.mp hm'
          refine ⟨m, hm, ?_⟩
          split at hv
          · simp at hv
          · exact hv
      · exact ⟨m', hm', hv⟩

theorem verifying_apply {st : Stmt} (hI : w.db.Integrity) (hg : st.Guard env w w')
    {identity : String} {m' : Inventory}
    (hm' : (st.apply w.db).inventory identity = some m') (hv : m'.verifiedAt.isSome) :
    Verifying w.db (st.apply w.db) st identity := by
  cases st with
  | updateMember target patch now invalidating =>
      have hfind := (inventory_mapMember _ (by intro; rfl) target identity).symm.trans hm'
      obtain ⟨m, hm, rfl⟩ := Option.map_eq_some_iff.mp hfind
      refine ⟨rfl, ?_⟩
      have hid : m.identity = identity := by simpa using List.find?_some hm
      rw [hid] at hv
      split at hv
      · rename_i htarget
        subst htarget
        cases hpatch : patch.verifiedAt with
        | none => exact .inl ⟨m, hm, by simpa [Patch.apply, hpatch] using hv⟩
        | some v =>
            cases v with
            | none => simp [Patch.apply, hpatch] at hv
            | some t => exact .inr ⟨patch, now, invalidating, rfl, t, hpatch⟩
      · exact .inl ⟨m, hm, hv⟩
  | writeCredentials target c now => exact verifying_writeCredentials hm' hv
  | releaseReservation target stage =>
      exact verifying_mapMember (fun _ => rfl) (fun _ h => h) hm' hv
  | retryMember target attemptId stage now =>
      exact verifying_mapMember (fun _ => rfl) (fun _ h => by simp at h) hm' hv
  | setReauth target count windowAt =>
      exact verifying_mapMember (fun _ => rfl) (fun _ h => h) hm' hv
  | wakeCooled now =>
      have hfind := (find?_map (fun m : Inventory => by split <;> rfl) identity).symm.trans hm'
      obtain ⟨m, hm, rfl⟩ := Option.map_eq_some_iff.mp hfind
      refine ⟨rfl, .inl ⟨m, hm, ?_⟩⟩
      split at hv <;> exact hv
  | insertMember row =>
      refine ⟨rfl, .inl ?_⟩
      have hfind : (w.db.inventory identity).or ([row].find? fun m => m.identity = identity)
          = some m' := List.find?_append.symm.trans hm'
      cases hold : w.db.inventory identity with
      | some m =>
          obtain rfl : m = m' := by simpa [hold] using hfind
          exact ⟨m, rfl, hv⟩
      | none =>
          obtain ⟨-, -, -, -, -, attemptId, t, -, hrow⟩ := hg
          rw [hold, Option.none_or] at hfind
          obtain rfl : m' = row := List.mem_singleton.mp (List.mem_of_find?_eq_some hfind)
          rw [hrow] at hv
          simp [newMember] at hv
  | insertAccount row =>
      refine ⟨?_, .inl ⟨m', hm', hv⟩⟩
      have hacc := hI.memberAccount m' (List.mem_of_find?_eq_some hm')
      rw [show m'.identity = identity by simpa using List.find?_some hm'] at hacc
      exact credentials_insertAccount row hacc
  | deleteAccount target =>
      refine ⟨?_, .inl ⟨m', hm', hv⟩⟩
      have htarget : identity ≠ target := by
        rintro rfl
        have hnone := hm'.symm.trans hg
        cases hnone
      exact credentials_deleteAccount htarget
  | deleteHold held =>
      have hmem : ((Stmt.deleteHold held).apply w.db).members = w.db.members := by
        simp only [Stmt.apply]
        split <;> rfl
      have hacc : ((Stmt.deleteHold held).apply w.db).accounts = w.db.accounts := by
        simp only [Stmt.apply]
        split <;> rfl
      refine ⟨by simp only [Db.credentials, Db.account, hacc], .inl ⟨m', ?_, hv⟩⟩
      rwa [Db.inventory, hmem] at hm'
  | _ => exact ⟨rfl, .inl ⟨m', hm', hv⟩⟩

/-! ## Operations -/

theorem Step.verifiedBy {Q : String → Credentials → Prop} (hstep : Step env A w w')
    (hI : w.db.Integrity) (h : w.db.VerifiedBy Q)
    (hA : ∀ identity patch t b, A (.updateMember identity patch t b) → patch.Verifies →
      ∃ c, w.db.credentials identity = some c ∧ Q identity c) : w'.db.VerifiedBy Q := by
  cases hstep with
  | idle _ hdb => exact hdb ▸ h
  | exec st hst _ hg hdb =>
      intro identity m' hm' hv
      rw [hdb] at hm' ⊢
      have hver := verifying_apply hI hg hm' hv
      rw [hver.credentials]
      rcases hver.source with ⟨m, hm, hsome⟩ | ⟨patch, t, b, rfl, hpatch⟩
      · exact h identity m hm hsome
      · exact hA identity patch t b hst hpatch

/-- An update that sets `verified_at` is of a member whose credential columns have the property. -/
def Op.Verifies (Q : String → Credentials → Prop) (db : Db) : Op → Prop
  | .update identity patch _ _ => patch.Verifies →
      ∃ c, db.credentials identity = some c ∧ Q identity c
  | _ => True

theorem not_verifies_routine {p : Patch} (h : p.Routine) : ¬p.Verifies := by
  rintro ⟨t, ht⟩
  rcases h.verifiedAt with h | h <;> rw [h] at ht <;> cases ht

/-- An `update` leaves the accounts alone. -/
theorem update_accounts {identity : String} {patch : Patch} {expected : Option InventoryFence}
    {owner : Option String} (hstep : Step env (Op.update identity patch expected owner).permits w w') :
    w'.db.accounts = w.db.accounts := by
  cases hstep with
  | idle _ hdb => rw [hdb]
  | exec st hst _ _ hdb =>
      rw [hdb]
      cases st with
      | insertAccount row => rcases hst with hst | hst <;> cases hst
      | deleteAccount identity => cases hst
      | writeCredentials identity c now => exact hst.elim
      | deleteHold held =>
          simp only [Stmt.apply]
          split <;> rfl
      | _ => rfl

theorem step_verifiedBy {Q : String → Credentials → Prop} (env : Env) {op : Op}
    (hI : w.db.Integrity) (h : w.db.VerifiedBy Q) (hop : op.Verifies Q w.db) :
    (step env w op).db.VerifiedBy Q := by
  by_cases hupd : ∃ identity patch expected owner, op = .update identity patch expected owner
  · obtain ⟨identity, patch, expected, owner, rfl⟩ := hupd
    have hkeep : ∀ v v', Step env (Op.update identity patch expected owner).permits v v' →
        v.db.Integrity ∧ v.db.VerifiedBy Q ∧ v.db.accounts = w.db.accounts →
        v'.db.Integrity ∧ v'.db.VerifiedBy Q ∧ v'.db.accounts = w.db.accounts := by
      rintro v v' hstep ⟨hIv, hver, hacc⟩
      refine ⟨hstep.integrity hIv, hstep.verifiedBy hIv hver ?_, (update_accounts hstep).trans hacc⟩
      rintro i p t b (hsweep | ⟨hretires, -⟩ | ⟨expected', owner', heq⟩ | ⟨_, _, _, heq, -⟩) hp
      · exact absurd hp (not_verifies_routine hsweep.routine)
      · cases hretires
      · cases heq
        simp only [Db.credentials, Db.account, hacc]
        exact hop hp
      · cases heq
    exact (Steps.invariant hkeep (steps_of_step env w _) ⟨hI, h, rfl⟩).2.1
  · have hkeep : ∀ v v', Step env op.permits v v' → v.db.Integrity ∧ v.db.VerifiedBy Q →
        v'.db.Integrity ∧ v'.db.VerifiedBy Q := by
      rintro v v' hstep ⟨hIv, hver⟩
      refine ⟨hstep.integrity hIv, hstep.verifiedBy hIv hver ?_⟩
      rintro i p t b (hsweep | ⟨-, hroutine, -⟩ | ⟨expected', owner', heq⟩ | ⟨_, _, _, -, rfl⟩) hp
      · exact absurd hp (not_verifies_routine hsweep.routine)
      · exact absurd hp (not_verifies_routine hroutine)
      · exact absurd ⟨_, _, _, _, heq⟩ hupd
      · obtain ⟨t, ht⟩ := hp
        cases ht
    exact (Steps.invariant hkeep (steps_of_step env w op) ⟨hI, h⟩).2

/-- Every update of the run that sets `verified_at` does so under the property. -/
def VerifyingRun (env : Env) (Q : String → Credentials → Prop) : World → List Op → Prop
  | _, [] => True
  | w, op :: ops => op.Verifies Q w.db ∧ VerifyingRun env Q (step env w op) ops

theorem run_verifiedBy {Q : String → Credentials → Prop} (env : Env) {ops : List Op} :
    ∀ {w : World}, w.db.Integrity → w.db.VerifiedBy Q → VerifyingRun env Q w ops →
      (run env w ops).db.VerifiedBy Q := by
  induction ops with
  | nil => exact fun _ h _ => h
  | cons op ops ih =>
      intro w hI h hops
      exact ih (run_integrity env hI [op]) (step_verifiedBy env hI h hops.1) hops.2

end GhcpConsole.Pool
