import GhcpConsole.Pool.Renewal

/-!
# The generation fence

A member's generation counts what has happened to it: it rises with every change of its
credential columns and with every entry into `failed`, `disabled` or `provisioning`. The law is a
preorder on tables that every step respects. A hold keeps the generation it was admitted under,
so once the member has moved past it the hold is dead for good.
-/

namespace GhcpConsole.Pool

variable {env : Env} {A : Stmt → Prop} {w w' : World}

/-- The credential columns of an account. -/
def Db.credentials (db : Db) (identity : String) : Option Credentials :=
  (db.account identity).map (·.credentials)

/-- No generation falls, and one that stays has seen no change of the member's credentials and no
entry into an invalidating state. -/
structure Ages (db db' : Db) (identity : String) (m m' : Inventory) : Prop where
  le : m.generation ≤ m'.generation
  credentials : m.generation = m'.generation → db'.credentials identity = db.credentials identity
  state : m.generation = m'.generation → m'.state = m.state ∨ m'.state.invalidates = false

theorem Ages.refl (db : Db) (identity : String) (m : Inventory) : Ages db db identity m m :=
  ⟨Int.le_refl _, fun _ => rfl, fun _ => .inl rfl⟩

theorem Ages.trans {db₁ db₂ db₃ : Db} {identity : String} {m₁ m₂ m₃ : Inventory}
    (h : Ages db₁ db₂ identity m₁ m₂) (h' : Ages db₂ db₃ identity m₂ m₃) :
    Ages db₁ db₃ identity m₁ m₃ := by
  have hle := h.le
  have hle' := h'.le
  refine ⟨by omega, fun heq => ?_, fun heq => ?_⟩
  · rw [h'.credentials (by omega), h.credentials (by omega)]
  · rcases h'.state (by omega) with hs' | hs'
    · rcases h.state (by omega) with hs | hs
      · exact .inl (hs'.trans hs)
      · exact .inr (hs' ▸ hs)
    · exact .inr hs'

/-! ## One statement -/

theorem inventory_mapMember {db : Db} (f : Inventory → Inventory)
    (hf : ∀ m, (f m).identity = m.identity) (target identity : String) :
    (db.mapMember target f).inventory identity
      = (db.inventory identity).map fun m => if m.identity = target then f m else m :=
  find?_map (fun m => by split <;> simp [hf]) identity

theorem inventory_fence (db : Db) (target identity : String) :
    (db.fence target).inventory identity = (db.inventory identity).map fun m =>
      if m.identity = target then { m with generation := m.generation + 1, verifiedAt := none }
      else m :=
  inventory_mapMember _ (by intro; rfl) target identity

/-- The statement has not touched the member's row, nor its account. -/
theorem Ages.of_same {db db' : Db} {identity : String} {m : Inventory}
    (hm : db'.inventory identity = some m)
    (ha : db'.credentials identity = db.credentials identity) :
    ∃ m', db'.inventory identity = some m' ∧ Ages db db' identity m m' :=
  ⟨m, hm, Int.le_refl _, fun _ => ha, fun _ => .inl rfl⟩

theorem credentials_writeCredentials (db : Db) (target identity : String) (c : Credentials)
    (now : Nat) : (db.writeCredentials target c now).credentials identity
      = (db.credentials identity).map fun old => if identity = target then c else old := by
  let f : ProxyAccount → ProxyAccount := fun a =>
    if a.identity = target then { a with credentials := c, updatedAt := now } else a
  have hfind : ∀ db' : Db, db'.accounts = db.accounts.map f → db'.credentials identity
      = (db.credentials identity).map fun old => if identity = target then c else old := by
    intro db' h
    have hmap : db'.account identity = (db.account identity).map f := by
      rw [Db.account, h]
      exact find?_map (fun a => by dsimp only [f]; split <;> rfl) identity
    rw [Db.credentials, hmap, Db.credentials]
    rcases hfound : db.account identity with _ | a
    · rfl
    · have hid : a.identity = identity := by simpa using List.find?_some hfound
      simp only [Option.map_some, f, hid]
      split <;> rfl
  unfold Db.writeCredentials
  split
  · split <;> exact hfind _ rfl
  · exact hfind _ rfl

theorem credentials_insertAccount {db : Db} {identity : String} (row : ProxyAccount)
    (h : (db.account identity).isSome) :
    ((Stmt.insertAccount row).apply db).credentials identity = db.credentials identity :=
  congrArg _ (List.find?_append.trans (Option.or_of_isSome h))

theorem credentials_deleteAccount {db : Db} {identity target : String} (h : identity ≠ target) :
    ((Stmt.deleteAccount target).apply db).credentials identity = db.credentials identity := by
  have hfind : ((Stmt.deleteAccount target).apply db).account identity = db.account identity := by
    simp only [Stmt.apply, Db.account, List.find?_filter]
    congr 1
    funext a
    by_cases ha : a.identity = identity <;> simp [ha, h]
  exact congrArg _ hfind

theorem ages_writeCredentials {db : Db} {target identity : String} {c : Credentials} {now : Nat}
    {m : Inventory} (hm : db.inventory identity = some m) :
    ∃ m', (db.writeCredentials target c now).inventory identity = some m'
      ∧ Ages db (db.writeCredentials target c now) identity m m' := by
  have hcred := credentials_writeCredentials db target identity c now
  have hid : m.identity = identity := by simpa using List.find?_some hm
  -- the fence fires on the target alone, and only when a column changes its value
  by_cases hfires : identity = target ∧ ∃ a, db.account target = some a ∧ a.credentials ≠ c
  · obtain ⟨rfl, a, hacc, hne⟩ := hfires
    refine ⟨{ m with generation := m.generation + 1, verifiedAt := none }, ?_, ?_⟩
    · simp only [Db.writeCredentials, hacc, if_neg hne, inventory_fence]
      exact (congrArg _ hm).trans (by simp [hid])
    · exact ⟨by dsimp only; omega, fun h => by dsimp only at h; omega,
        fun h => by dsimp only at h; omega⟩
  · refine Ages.of_same ?_ ?_
    · unfold Db.writeCredentials
      split
      · rename_i a hacc
        split
        · exact hm
        · rename_i hne
          rw [inventory_fence]
          have htarget : identity ≠ target := fun h => hfires ⟨h, a, hacc, hne⟩
          exact (congrArg _ hm).trans (by simp [hid, htarget])
      · exact hm
    · rw [hcred]
      by_cases htarget : identity = target
      · subst htarget
        rcases hacc : db.account identity with _ | a
        · simp [Db.credentials, hacc]
        · have hsame : a.credentials = c := by
            by_contra hne
            exact hfires ⟨rfl, a, hacc, hne⟩
          simp [Db.credentials, hacc, hsame]
      · simp [htarget]

/-- A statement that rewrites one member's row: it ages that member and no other. -/
theorem ages_mapMember {db : Db} {f : Inventory → Inventory} {target identity : String}
    {m : Inventory} (hf : ∀ m, (f m).identity = m.identity)
    (hm : db.inventory identity = some m)
    (hages : identity = target → Ages db (db.mapMember target f) identity m (f m)) :
    ∃ m', (db.mapMember target f).inventory identity = some m'
      ∧ Ages db (db.mapMember target f) identity m m' := by
  have hid : m.identity = identity := by simpa using List.find?_some hm
  have hfind : (db.mapMember target f).inventory identity = _ :=
    inventory_mapMember f hf target identity
  rw [hm, Option.map_some, hid] at hfind
  by_cases htarget : identity = target
  · exact ⟨f m, by rw [hfind, if_pos htarget], hages htarget⟩
  · exact Ages.of_same (by rw [hfind, if_neg htarget]) rfl

theorem ages_updateMember {db : Db} {target identity : String} {patch : Patch} {now : Nat}
    {m : Inventory} (hm : db.inventory identity = some m)
    (hrow : ∃ row, db.inventory target = some row ∧ invalidating = patch.invalidating row) :
    ∃ m', ((Stmt.updateMember target patch now invalidating).apply db).inventory identity = some m'
      ∧ Ages db ((Stmt.updateMember target patch now invalidating).apply db) identity m m' := by
  refine ages_mapMember (fun _ => rfl) hm fun htarget => ?_
  subst htarget
  obtain ⟨row, hrow, rfl⟩ := hrow
  obtain rfl : m = row := Option.some.inj (hm.symm.trans hrow)
  cases hinv : patch.invalidating m with
  | true =>
      exact ⟨by dsimp only; simp, fun h => by simp at h, fun h => by simp at h⟩
  | false =>
      refine ⟨by simp, fun _ => rfl, fun _ => ?_⟩
      unfold Patch.invalidating at hinv
      rcases hstate : patch.state with _ | s <;> rw [hstate] at hinv
      · exact .inl (by simp [Patch.apply, hstate])
      · simp only [Bool.and_eq_false_iff, decide_eq_false_iff_not, ne_eq, not_not] at hinv
        simp only [Patch.apply, hstate, Option.getD_some]
        exact hinv.symm

theorem ages_apply {st : Stmt} (hI : w.db.Integrity) (hg : st.Guard env w w')
    {identity : String} {m : Inventory} (hm : w.db.inventory identity = some m) :
    ∃ m', (st.apply w.db).inventory identity = some m'
      ∧ Ages w.db (st.apply w.db) identity m m' := by
  have hbump : ∀ (f : Inventory → Inventory) target, (∀ m, (f m).identity = m.identity) →
      (∀ m, (f m).generation = m.generation + 1) →
      ∃ m', (w.db.mapMember target f).inventory identity = some m'
        ∧ Ages w.db (w.db.mapMember target f) identity m m' := by
    intro f target hf hgen
    refine ages_mapMember hf hm fun _ => ⟨?_, fun h => ?_, fun h => ?_⟩ <;> rw [hgen] at * <;> omega
  cases st with
  | updateMember target patch now invalidating =>
      obtain ⟨row, hrow, -, hinv, -⟩ := hg
      exact ages_updateMember hm ⟨row, hrow, hinv⟩
  | writeCredentials target c now => exact ages_writeCredentials hm
  | releaseReservation target stage => exact hbump _ _ (fun _ => rfl) fun _ => rfl
  | retryMember target attemptId stage now => exact hbump _ _ (fun _ => rfl) fun _ => rfl
  | setReauth target count windowAt =>
      exact ages_mapMember (fun _ => rfl) hm fun _ =>
        ⟨Int.le_refl _, fun _ => rfl, fun _ => .inl rfl⟩
  | wakeCooled now =>
      refine ⟨_, (find?_map (fun m => by split <;> rfl) identity).trans (congrArg _ hm), ?_⟩
      dsimp only
      split
      · exact ⟨Int.le_refl _, fun _ => rfl, fun _ => .inr rfl⟩
      · exact ⟨Int.le_refl _, fun _ => rfl, fun _ => .inl rfl⟩
  | insertMember row =>
      have hfound : (w.db.inventory identity).isSome := by rw [hm]; rfl
      exact Ages.of_same ((List.find?_append.trans (Option.or_of_isSome hfound)).trans hm) rfl
  | insertAccount row =>
      refine Ages.of_same hm ?_
      have hacc := hI.memberAccount m (List.mem_of_find?_eq_some hm)
      rw [show m.identity = identity by simpa using List.find?_some hm] at hacc
      exact credentials_insertAccount row hacc
  | deleteAccount target =>
      refine Ages.of_same hm ?_
      have htarget : identity ≠ target := by
        rintro rfl
        exact absurd (hm.symm.trans hg) nofun
      exact credentials_deleteAccount htarget
  | deleteHold held =>
      refine Ages.of_same ?_ ?_ <;> simp only [Stmt.apply] <;> split <;> first | exact hm | rfl
  | _ => exact Ages.of_same hm rfl

theorem steps_ages (hsteps : Steps env A w w') (hI : w.db.Integrity) {identity : String}
    {m : Inventory} (hm : w.db.inventory identity = some m) :
    ∃ m', w'.db.inventory identity = some m' ∧ Ages w.db w'.db identity m m' := by
  induction hsteps with
  | refl => exact ⟨m, hm, .refl _ _ _⟩
  | tail hsteps hstep ih =>
      obtain ⟨m₁, hm₁, hages⟩ := ih
      have hI₁ := Steps.invariant (fun _ _ hs h => hs.integrity h) hsteps hI
      cases hstep with
      | idle _ hdb => exact ⟨m₁, hdb ▸ hm₁, hdb ▸ hages⟩
      | exec st _ _ hg hdb =>
          obtain ⟨m₂, hm₂, hages₂⟩ := ages_apply hI₁ hg hm₁
          exact ⟨m₂, hdb ▸ hm₂, hdb ▸ hages.trans hages₂⟩

/-! ## Dead holds -/

/-- The member has moved past the generation the hold was admitted under. -/
def Outdated (db : Db) (held : HeldLease) : Prop :=
  ∀ row m, db.heldRow held = some row → db.inventory row.memberIdentity = some m →
    m.generation ≠ row.generation

theorem currentHold_outdated (env : Env) {held : HeldLease} (h : Outdated w.db held) :
    ∃ w', currentHold env held w = (.ok none, w') ∧ w'.Ahead w := by
  obtain ⟨res, w', hrun, ha, hforce⟩ := currentHold_cases env held w
  rcases res with _ | row
  · exact ⟨w', hrun, ha⟩
  · obtain ⟨m, t, -, hforce⟩ := hforce row rfl
    exact absurd hforce.generation (h row m hforce.held hforce.inventory)

theorem reportFence_outdated (env : Env) {held : HeldLease} (h : Outdated w.db held) (identity : String) :
    ∃ w', reportFence env identity (some held) w = (.ok false, w') ∧ w'.Ahead w := by
  obtain ⟨w', hrun, ha⟩ := currentHold_outdated env h
  by_cases hid : held.memberIdentity = identity
  · exact ⟨w', by simp [reportFence, hid, Tx.bind_run, hrun], ha⟩
  · exact ⟨w, by simp [reportFence, hid], .refl w⟩

/-- The operations presented with a handle, but for its completion. -/
def Op.Reports (held : HeldLease) : Op → Prop
  | .heartbeat h | .recoverUnauthorized h _ => h = held
  | .cool _ _ h | .quarantine _ _ h => h = some held
  | _ => False

theorem reports_outdated {held : HeldLease} (h : Outdated w.db held) {op : Op}
    (hop : op.Reports held) :
    (op.exec env w).1 ≠ .ok (.answered true) ∧ (step env w op).db = w.db := by
  obtain ⟨w₁, hcurrent, ha₁⟩ := currentHold_outdated env h
  cases op with
  | heartbeat held' =>
      obtain rfl : held' = held := hop
      simp [step, Op.exec, heartbeat, Tx.bind_run, hcurrent, ha₁.db]
  | recoverUnauthorized held' token =>
      obtain rfl : held' = held := hop
      simp [step, Op.exec, recoverUnauthorized, transaction, Tx.transaction, Tx.bind_run, hcurrent,
        ha₁.db]
  | quarantine identity code held' =>
      obtain rfl : held' = some held := hop
      obtain ⟨w₂, hfence, ha₂⟩ := reportFence_outdated env h identity
      simp [step, Op.exec, quarantine, transaction, Tx.transaction, Tx.bind_run, hfence, ha₂.db]
  | cool identity seconds held' =>
      obtain rfl : held' = some held := hop
      obtain ⟨w₂, hfence, ha₂⟩ := reportFence_outdated env h identity
      rcases hms : coolingMs seconds with _ | ms
      · simp [step, Op.exec, cool, transaction, Tx.transaction, Tx.bind_run, hms, World.rollback]
      · simp [step, Op.exec, cool, transaction, Tx.transaction, Tx.bind_run, hms, hfence, ha₂.db]
  | _ => exact hop.elim

/-- A successful completion of an outdated hold does what an unsuccessful one does. -/
theorem finish_outdated {held : HeldLease} (h : Outdated w.db held) :
    ∃ v, v.Ahead w ∧ finish env held true w = finish env held false v := by
  rcases hrow : w.db.heldRow held with _ | row
  · exact ⟨w, .refl w, by simp [finish, transaction, Tx.transaction, Tx.bind_run, hrow]⟩
  obtain ⟨v, hcurrent, ha⟩ := currentHold_outdated env h
  cases hkind : held.kind with
  | catalog =>
      exact ⟨w, .refl w, by simp [finish, transaction, Tx.transaction, Tx.bind_run, hrow, hkind]⟩
  | lease =>
      refine ⟨v, ha, ?_⟩
      simp [finish, transaction, Tx.transaction, Tx.bind_run, hrow, hkind, hcurrent, ha.db,
        World.rollback]

/-! ## The hold of an admission -/

/-- The row behind the handle, and the generation it pins. -/
structure Pinned (db : Db) (held : HeldLease) (generation : Int) : Prop where
  lease : held.kind = .lease →
    ∃ h ∈ db.holds, h.requestId = held.requestId ∧ h.generation = generation
  catalog : held.kind = .catalog →
    ∃ c ∈ db.catalogHolds, c.requestId = held.requestId ∧ c.generation = generation

theorem hold_ok {lease : Lease} {kind : HoldKind} {timeoutMs : Nat} {held : HeldLease}
    (h : hold env lease kind timeoutMs w = (.ok held, w')) :
    ∃ m, w'.db.inventory held.memberIdentity = some m ∧ Pinned w'.db held m.generation := by
  rcases hm : w.db.inventory lease.memberIdentity with _ | m
  · simp [hold, Tx.bind_run, hm] at h
  · cases kind with
    | catalog =>
        simp [hold, Tx.bind_run, hm] at h
        obtain ⟨rfl, rfl⟩ := h
        exact ⟨m, hm, by rintro ⟨⟩, fun _ =>
          ⟨_, List.mem_append_right _ (List.mem_singleton_self _), rfl, rfl⟩⟩
    | lease =>
        simp [hold, Tx.bind_run, hm] at h
        obtain ⟨rfl, rfl⟩ := h
        exact ⟨m, hm, fun _ =>
          ⟨_, List.mem_append_right _ (List.mem_singleton_self _), rfl, rfl⟩, by rintro ⟨⟩⟩

theorem admission_ok {body : StoreM HeldLease} {held : HeldLease}
    (h : admission env body w = (.ok held, w')) : ∃ v, body v = (.ok held, w') := by
  simp only [admission, Tx.bind_eq_ok] at h
  obtain ⟨res, v, hres, hof⟩ := h
  rcases res with e | held'
  · cases hof
  · obtain ⟨rfl, rfl⟩ := by simpa [ofExcept, Tx.rethrow] using hof
    rw [transaction, Tx.transaction_eq_ok, Tx.bind_eq_ok] at hres
    obtain ⟨_, v₁, -, htry⟩ := hres
    refine ⟨v₁, ?_⟩
    rw [Tx.tryReturn] at htry
    rcases hbody : transaction body v₁ with ⟨e | a, s'⟩ <;> rw [hbody] at htry
    · dsimp only at htry
      split at htry <;> simp at htry
    · obtain ⟨rfl, rfl⟩ := by simpa using htry
      exact Tx.transaction_eq_ok.mp hbody

theorem acquireBody_ok {caller : String} {timeoutMs : Nat} {held : HeldLease}
    (h : acquireBody env caller timeoutMs w = (.ok held, w')) :
    ∃ m, w'.db.inventory held.memberIdentity = some m ∧ Pinned w'.db held m.generation := by
  simp only [acquireBody, Tx.bind_eq_ok] at h
  obtain ⟨_, _, -, _, _, -, _, _, -, h⟩ := h
  split at h
  · simp only [Tx.bind_eq_ok] at h
    obtain ⟨_, _, -, h⟩ := h
    split at h
    · simp [Tx.bind_run] at h
    · exact hold_ok h
  · simp only [Tx.bind_eq_ok] at h
    obtain ⟨_, _, -, _, _, -, _, _, -, h⟩ := h
    exact hold_ok h

theorem acquireCatalogBody_ok {caller : String} {held : HeldLease}
    (h : acquireCatalogBody env caller w = (.ok held, w')) :
    ∃ m, w'.db.inventory held.memberIdentity = some m ∧ Pinned w'.db held m.generation := by
  simp only [acquireCatalogBody, Tx.bind_eq_ok] at h
  obtain ⟨_, _, -, _, _, -, _, _, -, _, _, -, h⟩ := h
  split at h
  · simp only [Tx.bind_eq_ok] at h
    obtain ⟨_, _, -, h⟩ := h
    split at h
    · simp [Tx.bind_run] at h
    · simp only [Tx.bind_eq_ok] at h
      obtain ⟨_, _, -, _, _, -, h⟩ := h
      exact hold_ok h
  · simp only [Tx.bind_eq_ok] at h
    obtain ⟨_, _, -, _, _, -, h⟩ := h
    exact hold_ok h

/-- An operation that answers with a handle has ended with the body of an admission. -/
theorem admitted_body {op : Op} {held : HeldLease} (h : (op.exec env w).1 = .ok (.held held)) :
    ∃ v, (∃ caller timeoutMs, acquireBody env caller timeoutMs v = (.ok held, step env w op))
      ∨ ∃ caller, acquireCatalogBody env caller v = (.ok held, step env w op) := by
  have hexec : op.exec env w = (.ok (.held held), step env w op) := Prod.ext h rfl
  generalize step env w op = w' at *
  cases op with
  | acquire caller aborted timeoutMs =>
      simp only [Op.exec, Tx.bind_eq_ok, Tx.pure_run, Prod.mk.injEq, Except.ok.injEq,
        Reply.held.injEq] at hexec
      obtain ⟨held, v, hacq, rfl, rfl⟩ := hexec
      simp only [acquire, Tx.bind_eq_ok] at hacq
      obtain ⟨_, v₁, -, ms, v₂, -, _, v₃, -, hadm⟩ := hacq
      obtain ⟨v₄, hbody⟩ := admission_ok hadm
      exact ⟨v₄, .inl ⟨caller, ms, hbody⟩⟩
  | acquireCatalog caller aborted =>
      simp only [Op.exec, Tx.bind_eq_ok, Tx.pure_run, Prod.mk.injEq, Except.ok.injEq,
        Reply.held.injEq] at hexec
      obtain ⟨held, v, hacq, rfl, rfl⟩ := hexec
      simp only [acquireCatalog, Tx.bind_eq_ok] at hacq
      obtain ⟨_, v₁, -, _, v₂, -, hadm⟩ := hacq
      obtain ⟨v₄, hbody⟩ := admission_ok hadm
      exact ⟨v₄, .inr ⟨caller, hbody⟩⟩
  | _ =>
      simp only [Op.exec, Tx.bind_eq_ok, Tx.pure_run, Prod.mk.injEq, Except.ok.injEq] at hexec
      obtain ⟨_, _, -, hreply, -⟩ := hexec
      cases hreply

/-- An admission returns the handle of the hold it has inserted. -/
theorem admitted_pinned {op : Op} {held : HeldLease}
    (h : (op.exec env w).1 = .ok (.held held)) :
    ∃ m, (step env w op).db.inventory held.memberIdentity = some m
      ∧ Pinned (step env w op).db held m.generation := by
  obtain ⟨v, ⟨caller, timeoutMs, hbody⟩ | ⟨caller, hbody⟩⟩ := admitted_body h
  · exact acquireBody_ok hbody
  · exact acquireCatalogBody_ok hbody

theorem heldRow_catalog {db : Db} {held : HeldLease} {row : Db.JoinedHold}
    (hkind : held.kind = .catalog) (h : db.heldRow held = some row) :
    ∃ x ∈ db.catalogHolds, x.requestId = held.requestId ∧ row.generation = x.generation := by
  have hrow := (Option.filter_eq_some_iff.mp h).1
  simp only [hkind, Option.map_eq_some_iff] at hrow
  obtain ⟨x, hx, rfl⟩ := hrow
  have hids := List.find?_some hx
  simp only [Bool.and_eq_true, decide_eq_true_eq] at hids
  exact ⟨x, List.mem_of_find?_eq_some hx, hids.1, rfl⟩

theorem hold_of_pinned {held : HeldLease} {generation : Int} {x : HoldRow}
    (hw : w.Identified env) (hp : Pinned w.db held generation) (hkind : held.kind = .lease)
    (hsteps : Steps env A w w') (hx : x ∈ w'.db.holds) (hid : x.requestId = held.requestId) :
    x.generation = generation := by
  obtain ⟨h, hh, hhid, rfl⟩ := hp.lease hkind
  rcases steps_holds hsteps x hx with hx | hd
  · rw [hw.requests.eq hx hh (hid.trans hhid.symm)]
  · exact absurd (hhid.trans hid.symm) ((hw.holds h hh).ne_drawn hd)

/-- A row that a handle finds later is the one it was given, with the generation of then. -/
theorem generation_of_pinned {held : HeldLease} {generation : Int} {row : Db.JoinedHold}
    (hw : w.Identified env) (hp : Pinned w.db held generation) (hsteps : Steps env A w w')
    (hrow : w'.db.heldRow held = some row) : row.generation = generation := by
  cases hkind : held.kind with
  | lease =>
      obtain ⟨x, hx, hxid, -, hgen, -⟩ := heldRow_lease hkind hrow
      rw [hgen, hold_of_pinned hw hp hkind hsteps hx hxid]
  | catalog =>
      obtain ⟨c, hc, hid, rfl⟩ := hp.catalog hkind
      obtain ⟨x, hx, hxid, hgen⟩ := heldRow_catalog hkind hrow
      rcases steps_catalogHolds hsteps x hx with hx | hd
      · rw [hgen, hw.catalogRequests.eq hx hc (hxid.trans hid.symm)]
      · exact absurd (hid.trans hxid.symm) ((hw.catalogHolds c hc).ne_drawn hd)

/-! ## The result -/

/-- A credential column of the member has changed its value, or the member has entered `failed`,
`disabled` or `provisioning` from another state. -/
def Invalidated (db db' : Db) (identity : String) : Prop :=
  db'.credentials identity ≠ db.credentials identity
  ∨ ∃ m m', db.inventory identity = some m ∧ db'.inventory identity = some m'
      ∧ m'.state ≠ m.state ∧ m'.state.invalidates = true

theorem lt_of_invalidated {db db' : Db} {identity : String} {m m' : Inventory}
    (h : Ages db db' identity m m') (hm : db.inventory identity = some m)
    (hm' : db'.inventory identity = some m') (hinv : Invalidated db db' identity) :
    m.generation < m'.generation := by
  have hle := h.le
  rcases hinv with hcred | ⟨_, _, hm₁, hm₁', hstate, hinv⟩
  · exact lt_of_le_of_ne hle fun heq => hcred (h.credentials heq)
  · obtain rfl := Option.some.inj (hm.symm.trans hm₁)
    obtain rfl := Option.some.inj (hm'.symm.trans hm₁')
    refine lt_of_le_of_ne hle fun heq => ?_
    rcases h.state heq with hs | hs
    · exact hstate hs
    · rw [hinv] at hs
      cases hs

/-- Generations never fall, and rise whenever the member is invalidated; a hold whose member has
been invalidated since its admission is dead, whatever happens afterwards. -/
theorem generation_fence (env : Env) (w : World) (hw : w.db.Initial) (ops : List Op) :
    (∀ op identity m, (run env w ops).db.inventory identity = some m →
      ∃ m', (step env (run env w ops) op).db.inventory identity = some m'
        ∧ m.generation ≤ m'.generation
        ∧ (Invalidated (run env w ops).db (step env (run env w ops) op).db identity →
            m.generation < m'.generation))
    ∧ ∀ (op : Op) held, (op.exec env (run env w ops)).1 = .ok (.held held) →
        ∀ ops₁ op₁ ops₂,
        Invalidated (run env w (ops ++ op :: ops₁)).db (run env w (ops ++ op :: ops₁ ++ [op₁])).db
          held.memberIdentity →
        let v := run env w (ops ++ op :: ops₁ ++ op₁ :: ops₂)
        (∀ report : Op, report.Reports held →
          (report.exec env v).1 ≠ .ok (.answered true) ∧ (step env v report).db = v.db)
        ∧ (∃ v', v'.Ahead v ∧ finish env held true v = finish env held false v')
        ∧ ∀ success l, ¬Extends v.db (step env v (.finish held success)).db l := by
  have hI := fun ops => run_integrity env hw.toIntegrity ops
  refine ⟨fun op identity m hm => ?_, fun op held hheld ops₁ op₁ ops₂ hinv => ?_⟩
  · obtain ⟨m', hm', hages⟩ := steps_ages (steps_of_step env _ op) (hI ops) hm
    exact ⟨m', hm', hages.le, lt_of_invalidated hages hm hm'⟩
  · intro v
    obtain ⟨m, hm, hpin⟩ := admitted_pinned hheld
    have hv₁ : (step env (run env w ops) op).Identified env :=
      run_identified env (run_identified env hw.identified ops) [op]
    simp only [run_append, run_cons, run_nil] at hinv
    have hv : v = run env (step env (run env (step env (run env w ops) op) ops₁) op₁) ops₂ := by
      simp only [v, run_append, run_cons]
    generalize hw₁ : step env (run env w ops) op = w₁ at *
    have hI₁ : w₁.db.Integrity := hw₁ ▸ run_integrity env (hI ops) [op]
    -- the member at the admission, before the change, after it, and now
    obtain ⟨m₁, hm₁, hages₁⟩ := steps_ages (run_steps env w₁ ops₁) hI₁ hm
    have hI₂ := run_integrity env hI₁ ops₁
    obtain ⟨m₂, hm₂, hages₂⟩ := steps_ages (steps_of_step env _ op₁) hI₂ hm₁
    have hI₃ : (step env (run env w₁ ops₁) op₁).db.Integrity := run_integrity env hI₂ [op₁]
    obtain ⟨m₃, hm₃, hages₃⟩ := steps_ages (run_steps env _ ops₂) hI₃ hm₂
    have hlt : m.generation < m₃.generation := by
      have h₁ := hages₁.le
      have h₂ := lt_of_invalidated hages₂ hm₁ hm₂ hinv
      have h₃ := hages₃.le
      omega
    have hsteps : Steps env (fun _ => True) w₁ v := by
      rw [hv]
      exact ((run_steps env w₁ ops₁).trans ((steps_of_step env _ op₁).mono fun _ _ => trivial)).trans
        (run_steps env _ ops₂)
    have hout : Outdated v.db held := by
      intro row m' hrow hm'
      rw [(heldRow_kind hrow).2, hv] at hm'
      obtain rfl := Option.some.inj (hm₃.symm.trans hm')
      rw [generation_of_pinned hv₁ hpin hsteps hrow]
      exact hlt.ne'
    refine ⟨fun report hreport => reports_outdated hout hreport, finish_outdated hout,
      fun success l hext => ?_⟩
    have hvI := Steps.invariant (fun _ _ hs h => hs.integrity h) hsteps hI₁
    have hvid := Steps.invariant (fun _ _ hs h => hs.identified h) hsteps hv₁
    obtain ⟨-, hrenewal⟩ := renewal_of_extends hvid hvI hext
    obtain ⟨x, hx, hxid, -, -, m', hm', hgen, -⟩ := hrenewal.hold
    rw [← hrenewal.memberIdentity, hv] at hm'
    obtain rfl := Option.some.inj (hm₃.symm.trans hm')
    have := hold_of_pinned hv₁ hpin hrenewal.kind hsteps hx hxid
    omega

/-- The handle the sample pool's caller is given. -/
def Sample.handle : HeldLease where
  callerId := Sample.caller
  memberIdentity := "aaa.a00"
  enterpriseId := "main"
  leaseId := ""
  phase := .provisional
  assignedAt := 1002000
  lastSuccessAt := none
  expiresAt := 1062000
  requestId := "u"
  kind := .lease
  deadlineAt := 1064000

/-- A credential that replaces the leased one, before that one is put back. -/
def Sample.rotated : Credentials :=
  { (Sample.account "aaa.a00").credentials with token := some "other" }

theorem generation_fence_sample :
    let v := run Sample.env Sample.world
      [.acquire Sample.caller false none, .external (.credentials "aaa.a00" Sample.rotated),
        .external (.credentials "aaa.a00" (Sample.account "aaa.a00").credentials)]
    ((Op.heartbeat Sample.handle).exec Sample.env v).1 ≠ .ok (.answered true)
      ∧ (step Sample.env v (.heartbeat Sample.handle)).db = v.db :=
  ((generation_fence Sample.env Sample.world Sample.db_initial []).2
    (.acquire Sample.caller false none) Sample.handle rfl []
    (.external (.credentials "aaa.a00" Sample.rotated))
    [.external (.credentials "aaa.a00" (Sample.account "aaa.a00").credentials)]
    (.inl (by decide))).1 (.heartbeat Sample.handle) rfl

end GhcpConsole.Pool
