import GhcpConsole.Pool.Verification

/-!
# Supply and the sweep

What a reservation counts as supply, and that the sweep it runs first adds none. A member the
sweep fails was waiting for a new credential already, so it was in flight before and is at most
in flight after; a binding it deletes had expired, so its member counted as idle. The first rests
on `Db.Verified`: a member whose verification stands has a usable credential.
-/

namespace GhcpConsole.Pool

variable {env : Env} {A : Stmt → Prop} {w w' : World}

/-- A member whose verification stands has a usable credential. -/
def Db.Verified (db : Db) : Prop := db.VerifiedBy fun _ c => c.usable = true

/-! ## Supply member by member -/

/-- The member counts as ready-idle or as in flight. -/
def supplying (db : Db) (t : Nat) (p : Inventory) : Bool :=
  inActiveEnterprise db p && match db.account p.identity with
    | some a => readyIdle db t p a || inFlight p
    | none => false

/-- I + P. -/
def Db.supply (db : Db) (t : Nat) : Nat := (poolSupply db t).readyIdle + (poolSupply db t).inFlight

theorem countP_add_countP {α : Type} {p q : α → Bool} {l : List α}
    (h : ∀ a ∈ l, ¬(p a = true ∧ q a = true)) :
    l.countP p + l.countP q = l.countP fun a => p a || q a := by
  induction l with
  | nil => rfl
  | cons a l ih =>
      have hrest := ih fun b hb => h b (List.mem_cons_of_mem a hb)
      have ha := h a List.mem_cons_self
      simp only [List.countP_cons]
      cases hp : p a <;> cases hq : q a <;> simp_all <;> omega

/-- A ready-idle member is verified, one in flight is not, or is out of service. -/
theorem readyIdle_not_inFlight {db : Db} {t : Nat} {p : Inventory} {a : ProxyAccount}
    (h : readyIdle db t p a = true) : inFlight p = false := by
  simp only [readyIdle, Bool.and_eq_true, Bool.or_eq_true, decide_eq_true_eq] at h
  obtain ⟨⟨⟨⟨hstate, hver⟩, -⟩, -⟩, -⟩ := h
  have hsome : p.verifiedAt.isNone = false := by simpa using hver
  rcases hstate with hstate | ⟨hstate, -⟩ <;> simp [inFlight, hstate, hsome]

theorem supply_eq (db : Db) (t : Nat) : db.supply t = db.members.countP (supplying db t) := by
  rw [Db.supply, poolSupply, countP_add_countP]
  · congr 1
    funext p
    cases hacc : db.account p.identity <;> cases hact : inActiveEnterprise db p <;>
      simp [supplying, hacc, hact]
  · intro p _ ⟨hidle, hflight⟩
    cases hacc : db.account p.identity with
    | none => simp [hacc] at hidle
    | some a =>
        simp only [hacc, Bool.and_eq_true] at hidle hflight
        rw [readyIdle_not_inFlight hidle.2] at hflight
        simp at hflight

/-! ## Statements that add no supply -/

/-- A binding of the member is in force at `t`: an unexpired lease, or a live hold. -/
def Db.engaged (db : Db) (t : Nat) (identity : String) : Bool :=
  (db.leases.any fun l => l.memberIdentity = identity
    && (t < l.expiresAt || db.holds.any fun h => h.leaseId = l.leaseId && t < h.expiresAt))
  || db.catalogHolds.any fun c => c.memberIdentity = identity && t < c.expiresAt

/-- The member could serve at `t` if nothing bound it. -/
def servable (t : Nat) (p : Inventory) (a : ProxyAccount) : Bool :=
  (p.state = .ready || (p.state = .cooling && p.cooldownUntil ≤ t))
  && p.verifiedAt.isSome && a.credentials.usable

theorem readyIdle_eq (db : Db) (t : Nat) (p : Inventory) (a : ProxyAccount) :
    readyIdle db t p a = (servable t p a && !db.engaged t p.identity) := by
  rw [readyIdle, servable, Db.engaged, Bool.not_or]
  simp only [Bool.and_assoc]

/-- Statements of the sweep, with what makes each one neutral for the supply at `t`. -/
def Stmt.Sweeps (db : Db) (t : Nat) : Stmt → Prop
  | .deleteExpiredHolds s | .deleteExpiredCatalogHolds s | .wakeCooled s => s ≤ t
  | .deleteExpiredCooldowns _ | .insertEvent _ | .trimEvents => True
  | .updateMember identity patch _ _ =>
      patch.state = some .failed ∧ patch.attempts = none
      ∧ ∀ m ∈ db.members, m.identity = identity → m.attempts < 3 → inFlight m = true
  | .clampLease identity _ => ∀ m ∈ db.members, m.identity = identity → m.state = .failed
  | .deleteLease leaseId => ∀ l ∈ db.leases, l.leaseId = leaseId →
      l.expiresAt ≤ t ∧ ∀ h ∈ db.holds, h.leaseId = leaseId → h.expiresAt ≤ t
  | _ => False

/-- Supply falls when no member is supplying that was not supplying before. -/
theorem supply_mono {db db' : Db} {f : Inventory → Inventory} {t : Nat} (hf : KeepsMember f)
    (hmem : db'.members = db.members.map f) (hacc : db'.accounts = db.accounts)
    (hent : db'.enterprises = db.enterprises)
    (h : ∀ m ∈ db.members, ∀ a, (readyIdle db' t (f m) a = true ∨ inFlight (f m) = true) →
      readyIdle db t m a = true ∨ inFlight m = true) : db'.supply t ≤ db.supply t := by
  rw [supply_eq, supply_eq, hmem, List.countP_map]
  refine List.countP_mono_left fun m hm hsup => ?_
  have hactive : inActiveEnterprise db' (f m) = inActiveEnterprise db m := by
    simp only [inActiveEnterprise, Db.enterprise, hent, hf.enterpriseId]
  have haccount : db'.account (f m).identity = db.account m.identity := by
    simp only [Db.account, hacc, hf.identity]
  simp only [Function.comp, supplying, hactive, haccount, Bool.and_eq_true] at hsup ⊢
  refine ⟨hsup.1, ?_⟩
  cases ha : db.account m.identity with
  | none => simp [ha] at hsup
  | some a =>
      have hold := h m hm a (by simpa [ha] using hsup.2)
      simpa using hold

/-- Members stay as they are, and whoever was bound still is. -/
theorem supply_engaged {db db' : Db} {t : Nat} (hmem : db'.members = db.members)
    (hacc : db'.accounts = db.accounts) (hent : db'.enterprises = db.enterprises)
    (h : ∀ m ∈ db.members, db.engaged t m.identity = true → m.state ≠ .failed →
      db'.engaged t m.identity = true) : db'.supply t ≤ db.supply t := by
  refine supply_mono KeepsMember.id (by simpa using hmem) hacc hent fun m hm a hsup => ?_
  rcases hsup with hidle | hflight
  · refine .inl ?_
    rw [readyIdle_eq, Bool.and_eq_true, Bool.not_eq_true'] at hidle ⊢
    refine ⟨hidle.1, Bool.eq_false_iff.mpr fun hen => ?_⟩
    have hstate : m.state ≠ .failed := by
      intro hfailed
      simp [servable, hfailed] at hidle
    exact Bool.eq_false_iff.mp hidle.2 (h m hm hen hstate)
  · exact .inr hflight

theorem engaged_leases {db db' : Db} {t : Nat} {identity : String}
    (hen : db.engaged t identity = true) (hcat : db'.catalogHolds = db.catalogHolds)
    (h : ∀ l ∈ db.leases, l.memberIdentity = identity →
      (t < l.expiresAt ∨ ∃ x ∈ db.holds, x.leaseId = l.leaseId ∧ t < x.expiresAt) →
      ∃ l' ∈ db'.leases, l'.memberIdentity = identity
        ∧ (t < l'.expiresAt ∨ ∃ x ∈ db'.holds, x.leaseId = l'.leaseId ∧ t < x.expiresAt)) :
    db'.engaged t identity = true := by
  simp only [Db.engaged, hcat, Bool.or_eq_true, List.any_eq_true, Bool.and_eq_true,
    decide_eq_true_eq] at hen ⊢
  rcases hen with ⟨l, hl, hid, hbind⟩ | hcatalog
  · obtain ⟨l', hl', hid', hbind'⟩ := h l hl hid hbind
    exact .inl ⟨l', hl', hid', hbind'⟩
  · exact .inr hcatalog

theorem supply_sweeps {db : Db} {t : Nat} (st : Stmt) (h : st.Sweeps db t) :
    (st.apply db).supply t ≤ db.supply t := by
  cases st with
  | deleteExpiredHolds s =>
      have hs : s ≤ t := h
      refine supply_engaged rfl rfl rfl fun m _ hen _ => engaged_leases hen rfl ?_
      rintro l hl hid (hlive | ⟨x, hx, hxid, hlive⟩)
      · exact ⟨l, hl, hid, .inl hlive⟩
      · have hkept : x ∈ (Stmt.apply db (.deleteExpiredHolds s)).holds :=
          List.mem_filter.mpr ⟨hx, by simpa using Nat.lt_of_le_of_lt hs hlive⟩
        exact ⟨l, hl, hid, .inr ⟨x, hkept, hxid, hlive⟩⟩
  | deleteExpiredCatalogHolds s =>
      have hs : s ≤ t := h
      refine supply_engaged rfl rfl rfl fun m _ hen _ => ?_
      simp only [Db.engaged, Bool.or_eq_true] at hen ⊢
      refine hen.imp id fun hcat => ?_
      obtain ⟨c, hc, hlive⟩ := List.any_eq_true.mp hcat
      simp only [Bool.and_eq_true, decide_eq_true_eq] at hlive
      refine List.any_eq_true.mpr ⟨c, List.mem_filter.mpr ⟨hc, ?_⟩, by simpa using hlive⟩
      simpa using Nat.lt_of_le_of_lt hs hlive.2
  | deleteExpiredCooldowns s => exact supply_engaged rfl rfl rfl fun _ _ hen _ => hen
  | insertEvent row => exact supply_engaged rfl rfl rfl fun _ _ hen _ => hen
  | trimEvents => exact supply_engaged rfl rfl rfl fun _ _ hen _ => hen
  | deleteLease leaseId =>
      refine supply_engaged rfl rfl rfl fun m _ hen _ => engaged_leases hen rfl ?_
      intro l hl hid hbind
      -- a lease in force is not the one that goes, and its holds stay with it
      have hother : l.leaseId ≠ leaseId := by
        rintro rfl
        obtain ⟨hexp, hholds⟩ := h l hl rfl
        rcases hbind with hlive | ⟨x, hx, hxid, hlive⟩
        · omega
        · have := hholds x hx hxid
          omega
      refine ⟨l, List.mem_filter.mpr ⟨hl, by simpa using hother⟩, hid, ?_⟩
      rcases hbind with hlive | ⟨x, hx, hxid, hlive⟩
      · exact .inl hlive
      · refine .inr ⟨x, List.mem_filter.mpr ⟨hx, ?_⟩, hxid, hlive⟩
        simp only [Bool.not_eq_true', List.any_eq_false, Bool.and_eq_true, decide_eq_true_eq,
          not_and]
        rintro y - hy hyx
        exact hother (hxid ▸ hyx ▸ hy)
  | clampLease identity s =>
      refine supply_engaged rfl rfl rfl fun m hm hen hstate => engaged_leases hen rfl ?_
      intro l hl hid hbind
      have hother : l.memberIdentity ≠ identity := by
        intro hl'
        exact hstate (h m hm (hid ▸ hl'))
      refine ⟨l, List.mem_map.mpr ⟨l, hl, if_neg hother⟩, hid, hbind⟩
  | wakeCooled s =>
      have hs : s ≤ t := h
      have hf : KeepsMember fun m =>
          { m with state := .ready, cooldownUntil := 0, updatedAt := s } :=
        ⟨fun _ => rfl, fun _ => rfl, fun _ => rfl⟩
      refine supply_mono (hf.ite fun m => m.state = .cooling ∧ m.cooldownUntil ≤ s) rfl rfl rfl ?_
      intro m hm a hsup
      by_cases hwake : m.state = .cooling ∧ m.cooldownUntil ≤ s
      · simp only [if_pos hwake] at hsup
        have hdue : m.cooldownUntil ≤ t := Nat.le_trans hwake.2 hs
        rcases hsup with hidle | hflight
        · refine .inl ?_
          rw [readyIdle_eq] at hidle ⊢
          simpa [servable, hwake.1, hdue, Db.engaged, Stmt.apply] using hidle
        · refine .inr ?_
          simpa [inFlight, hwake.1] using hflight
      · simp only [if_neg hwake] at hsup
        exact hsup
  | updateMember identity patch s invalidating =>
      obtain ⟨hstate, hatt, hin⟩ := h
      have hf : KeepsMember fun m => { patch.apply m with
          updatedAt := s
          generation := if invalidating then m.generation + 1 else m.generation } :=
        ⟨fun _ => rfl, fun _ => rfl, fun _ => rfl⟩
      refine supply_mono (hf.ite fun m => m.identity = identity) rfl rfl rfl ?_
      intro m hm a hsup
      by_cases hid : m.identity = identity
      · simp only [if_pos hid] at hsup
        -- the row is failed now: it supplies only with attempts left, and then it was in flight
        refine .inr (hin m hm hid ?_)
        simp [readyIdle, inFlight, Patch.apply, hstate, hatt] at hsup
        exact hsup.1
      · simp only [if_neg hid] at hsup
        exact hsup
  | _ => exact h.elim

/-! ## The sweep -/

/-- Supply has not grown, at no instant after `v`. -/
structure Swept (env : Env) (w v : World) : Prop where
  before : w.Before v
  supply : ∀ n, v.ticks ≤ n → v.db.supply (env.clock n) ≤ w.db.supply (env.clock n)

theorem Swept.ahead (h : w'.Ahead w) : Swept env w w' :=
  ⟨h.before, fun _ _ => by rw [h.db]⟩

theorem Swept.trans {u : World} (h : Swept env w w') (h' : Swept env w' u) : Swept env w u :=
  ⟨h.before.trans h'.before, fun n hn =>
    Nat.le_trans (h'.supply n hn) (h.supply n (Nat.le_trans h'.before.ticks hn))⟩

theorem Swept.exec {st : Stmt} (h : ∀ n, w.ticks ≤ n → st.Sweeps w.db (env.clock n)) :
    Swept env w { w with db := st.apply w.db } :=
  ⟨⟨Nat.le_refl _, Nat.le_refl _⟩, fun n hn => supply_sweeps st (h n hn)⟩

/-- The keys the sweep relies on. -/
structure Db.Keys (db : Db) : Prop where
  members : Keyed (·.identity) db.members
  leaseIds : Keyed (·.leaseId) db.leases

theorem Db.Keys.apply {db : Db} (h : db.Keys) (st : Stmt) (hm : ∀ row, st ≠ .insertMember row)
    (hl : ∀ row, st ≠ .insertLease row) : (st.apply db).Keys where
  members := members_keyed h.members (fun _ hf => hf.identity) fun row hst => absurd hst (hm row)
  leaseIds := leases_keyed h.leaseIds (fun _ hf => hf.leaseId) fun row hst => absurd hst (hl row)

/-- What the sweep's updates write: failed, with the attempts as they were. -/
structure Patch.Fails (p : Patch) : Prop where
  state : p.state = some .failed
  attempts : p.attempts = none
  error : ∃ code, p.lastError = some code ∧ isManual code = false

/-- These members count as in flight, unless their attempts are used up. -/
def Waiting (db : Db) (ids : List String) : Prop :=
  ∀ id ∈ ids, ∀ m ∈ db.members, m.identity = id → m.attempts < 3 → inFlight m = true

theorem Waiting.updateMember {db : Db} {ids : List String} {identity : String} {patch : Patch}
    {t : Nat} {b : Bool} (hp : patch.Fails) (h : Waiting db ids) :
    Waiting ((Stmt.updateMember identity patch t b).apply db) ids := by
  intro id hid m' hm' hkey hatt
  obtain ⟨m, hm, rfl⟩ := List.mem_map.mp hm'
  by_cases hmine : m.identity = identity
  · obtain ⟨code, hcode, hmanual⟩ := hp.error
    simp only [if_pos hmine, Patch.apply, hp.state, hp.attempts, hcode] at hatt ⊢
    simp [inFlight, hmanual] at hatt ⊢
    exact hatt
  · rw [if_neg hmine] at hkey hatt ⊢
    exact h id hid m hm hkey hatt

theorem update_swept {identity : String} {patch : Patch} {ids : List String} {b : Bool}
    (hp : patch.Fails) (hk : w.db.Keys) (h : Waiting w.db (identity :: ids))
    (hrun : update env identity patch none none w = (.ok b, w')) :
    Swept env w w' ∧ w'.db.Keys ∧ Waiting w'.db ids := by
  have htail : Waiting w.db ids := fun id hid => h id (List.mem_cons_of_mem _ hid)
  rcases update_cases env identity patch none none w with
    ⟨b', v, hrun', ha, -⟩ | ⟨v, row, hrun', hup⟩ <;>
    obtain ⟨-, rfl⟩ := Prod.mk.injEq .. ▸ hrun'.symm.trans hrun
  · exact ⟨.ahead ha, ha.db ▸ hk, ha.db ▸ htail⟩
  obtain ⟨t, t', hdb⟩ := hup.db
  let mid : World := { v with
    db := (Stmt.updateMember identity patch t (patch.invalidating row)).apply w.db }
  have hmid : Swept env w mid :=
    ⟨⟨hup.before.ticks, hup.before.uuids⟩, fun n _ => supply_sweeps _
      ⟨hp.state, hp.attempts, fun m hm hid => h identity List.mem_cons_self m hm hid⟩⟩
  have hkeys : ((Stmt.updateMember identity patch t (patch.invalidating row)).apply w.db).Keys :=
    hk.apply _ (by simp) (by simp)
  have hwait : Waiting mid.db ids := htail.updateMember hp
  cases hinv : patch.invalidating row with
  | false =>
      have hv : v.db = mid.db := by simp [hdb, Db.patched, hinv, mid]
      exact ⟨hmid.trans (.ahead ⟨⟨Nat.le_refl _, Nat.le_refl _⟩, hv⟩), hv ▸ hkeys, hv ▸ hwait⟩
  | true =>
      have hv : v = { mid with db := (Stmt.clampLease identity t').apply mid.db } := by
        cases v
        simp_all [Db.patched, mid]
      have hclamp : Swept env mid { mid with db := (Stmt.clampLease identity t').apply mid.db } := by
        refine Swept.exec fun n _ m' hm' hid => ?_
        obtain ⟨m, -, rfl⟩ := List.mem_map.mp hm'
        have hmine : m.identity = identity := by
          by_contra hne
          rw [if_neg hne] at hid
          exact hne hid
        simp [hmine, Patch.apply, hp.state]
      rw [hv]
      exact ⟨hmid.trans hclamp, hkeys.apply (.clampLease identity t') (by simp) (by simp), hwait⟩

/-- A loop of the sweep's updates. -/
theorem updates_swept {patch : Patch} {ids : List String}
    (hrun : (ids.forM fun identity => do
      let _ ← update env identity patch none none) w = (.ok ⟨⟩, w'))
    (hp : patch.Fails) (hk : w.db.Keys) (h : Waiting w.db ids) :
    Swept env w w' ∧ w'.db.Keys := by
  have hend := Tx.forM_eq_ok (fun ids v => Swept env w v ∧ v.db.Keys ∧ Waiting v.db ids)
    (fun identity ids v v' hv hstep => ?_) ⟨.ahead (.refl w), hk, h⟩ hrun
  · exact ⟨hend.1, hend.2.1⟩
  · obtain ⟨b, v₁, hupd, hret⟩ := Tx.bind_eq_ok.mp hstep
    obtain ⟨-, rfl⟩ := by simpa using hret
    obtain ⟨hsw, hkeys, hwait⟩ := update_swept hp hv.2.1 hv.2.2 hupd
    exact ⟨hv.1.trans hsw, hkeys, hwait⟩

/-- Among the leases with these ids, all have expired by `t`. -/
def Expired (t : Nat) (l : List LeaseRow) (db : Db) : Prop :=
  ∀ lease ∈ l, ∀ x ∈ db.leases, x.leaseId = lease.leaseId →
    x.memberIdentity = lease.memberIdentity ∧ x.expiresAt ≤ t

theorem reclaimLease_swept {lease : LeaseRow} {l : List LeaseRow} {t : Nat}
    (ht : Past env w t) (h : Expired t (lease :: l) w.db)
    (hrun : reclaimLease env lease w = (.ok ⟨⟩, w')) :
    Swept env w w' ∧ Expired t l w'.db := by
  have htail : Expired t l w.db := fun x hx => h x (List.mem_cons_of_mem _ hx)
  have ha := (World.Ahead.refl w).now
  cases hheld : w.db.hasHolds lease.memberIdentity (env.clock w.ticks) with
  | true =>
      simp [Pool.reclaimLease, hasHolds, Tx.bind_run, hheld] at hrun
      rw [← hrun]
      exact ⟨.ahead ha, htail⟩
  | false =>
      let mid : World := { w with
        ticks := w.ticks + 1, db := (Stmt.deleteLease lease.leaseId).apply w.db }
      obtain ⟨events, hev⟩ := recordEvent_run env
        { action := "lease_expired", identity := lease.memberIdentity,
          caller := lease.callerId, leaseId := lease.leaseId } mid
      simp [Pool.reclaimLease, hasHolds, Tx.bind_run, hheld, mid, hev] at hrun
      have hdel : Swept env { w with ticks := w.ticks + 1 } mid := by
        refine Swept.exec fun n hn x hx hid => ?_
        obtain ⟨hmember, hexp⟩ := h lease List.mem_cons_self x hx hid
        obtain ⟨k, hk, hkt⟩ := ht
        have hclock : env.clock w.ticks ≤ env.clock n := env.clock_mono (Nat.le_of_succ_le hn)
        have hpast : t ≤ env.clock n :=
          hkt ▸ env.clock_mono (Nat.le_trans (Nat.le_of_lt hk) (Nat.le_of_succ_le hn))
        refine ⟨Nat.le_trans hexp hpast, fun y hy hyid => ?_⟩
        -- no hold of the member was live when the code looked
        simp only [Db.hasHolds, Bool.or_eq_false_iff, List.any_eq_false, Bool.and_eq_true,
          decide_eq_true_eq, List.any_eq_true, not_and, not_exists] at hheld
        have hdead : ¬env.clock w.ticks < y.expiresAt := fun hlive =>
          hheld.1 y hy hlive x hx (hid.trans hyid.symm) hmember
        omega
      have hevent : Swept env mid w' := by
        rw [← hrun]
        refine ⟨⟨Nat.le_succ _, Nat.le_refl _⟩, fun n _ => ?_⟩
        exact supply_engaged rfl rfl rfl fun _ _ hen _ => hen
      refine ⟨(Swept.ahead ha).trans (hdel.trans hevent), ?_⟩
      rw [← hrun]
      exact fun x hx y hy hid => htail x hx y (List.mem_of_mem_filter hy) hid

/-- The tables once the sweep has deleted what is over and woken the members that cooled down. -/
def Db.cleaned (db : Db) (t : Nat) : Db :=
  (Stmt.wakeCooled t).apply ((Stmt.deleteExpiredCooldowns t).apply
    ((Stmt.deleteExpiredCatalogHolds t).apply ((Stmt.deleteExpiredHolds t).apply db)))

theorem cleaned_swept (env : Env) (w : World) :
    Swept env w { w with ticks := w.ticks + 1, db := w.db.cleaned (env.clock w.ticks) } := by
  have hle : ∀ n, w.ticks + 1 ≤ n → env.clock w.ticks ≤ env.clock n := fun n hn =>
    env.clock_mono (Nat.le_of_succ_le hn)
  refine ⟨⟨Nat.le_succ _, Nat.le_refl _⟩, fun n hn => ?_⟩
  exact Nat.le_trans (supply_sweeps (.wakeCooled _) (hle n hn))
    (Nat.le_trans (supply_sweeps (.deleteExpiredCooldowns _) trivial)
      (Nat.le_trans (supply_sweeps (.deleteExpiredCatalogHolds _) (hle n hn))
        (supply_sweeps (.deleteExpiredHolds _) (hle n hn))))

theorem Db.Keys.cleaned {db : Db} (h : db.Keys) (t : Nat) : (db.cleaned t).Keys := by
  have h₁ := h.apply (.deleteExpiredHolds t) (by simp) (by simp)
  have h₂ := h₁.apply (.deleteExpiredCatalogHolds t) (by simp) (by simp)
  have h₃ := h₂.apply (.deleteExpiredCooldowns t) (by simp) (by simp)
  exact h₃.apply (.wakeCooled t) (by simp) (by simp)

theorem Db.Verified.cleaned {db : Db} (h : db.Verified) (t : Nat) : (db.cleaned t).Verified := by
  intro identity m' hm' hver
  have hfind := (find?_map (fun m : Inventory => by split <;> rfl) identity).symm.trans hm'
  obtain ⟨m, hm, rfl⟩ := Option.map_eq_some_iff.mp hfind
  have hold : m.verifiedAt.isSome := by split at hver <;> exact hver
  exact h identity m hm hold

/-- The invalid members of the sweep have lost their verification. -/
theorem waiting_invalid {db : Db} (hk : db.Keys) (hver : db.Verified) :
    Waiting db (invalidMembers db) := by
  intro id hid m hm hkey _
  obtain ⟨p, hp, rfl⟩ := List.mem_map.mp hid
  obtain ⟨hpm, hinvalid⟩ := List.mem_filter.mp hp
  obtain rfl : m = p := hk.members.eq hm hpm hkey
  simp only [Bool.and_eq_true, Bool.or_eq_true, decide_eq_true_eq] at hinvalid
  obtain ⟨hstate, hacc⟩ := hinvalid
  have hnone : m.verifiedAt = none := by
    by_contra hsome
    obtain ⟨c, hc, husable⟩ := hver _ m (hk.members.find? hm) (Option.isSome_iff_ne_none.mpr hsome)
    obtain ⟨a, ha, rfl⟩ := Option.map_eq_some_iff.mp hc
    simp [ha, husable] at hacc
  rcases hstate with hstate | hstate <;> simp [inFlight, hstate, hnone]

theorem waiting_unverified {db : Db} (hk : db.Keys) : Waiting db (unverifiedMembers db) := by
  intro id hid m hm hkey _
  obtain ⟨p, hp, rfl⟩ := List.mem_map.mp hid
  obtain ⟨hpm, hunverified⟩ := List.mem_filter.mp hp
  obtain rfl : m = p := hk.members.eq hm hpm hkey
  simp only [Bool.and_eq_true, decide_eq_true_eq] at hunverified
  simp [inFlight, hunverified.1, hunverified.2]

theorem expired_expiredLeases {db : Db} (hk : db.Keys) (t : Nat) :
    Expired t (expiredLeases db t) db := by
  intro lease hl x hx hid
  obtain ⟨hlm, hexp⟩ := List.mem_filter.mp hl
  obtain rfl : x = lease := hk.leaseIds.eq hx hlm hid
  simp only [Bool.and_eq_true, decide_eq_true_eq] at hexp
  exact ⟨rfl, hexp.1⟩

/-- The sweep adds no supply, as seen from any later instant. -/
theorem reclaim_swept (hI : w.db.Integrity) (hver : w.db.Verified)
    (hrun : reclaim env w = (.ok ⟨⟩, w')) : Swept env w w' := by
  have hbody := Tx.transaction_eq_ok.mp hrun
  rw [Tx.bind_ok (now_run env w)] at hbody
  simp only [Tx.bind_ok (exec_run _ _), Tx.bind_ok (select_run _ _)] at hbody
  have hclean := cleaned_swept env w
  have hver₀ : (w.db.cleaned (env.clock w.ticks)).Verified := hver.cleaned _
  have hk₀ : (w.db.cleaned (env.clock w.ticks)).Keys := Db.Keys.cleaned ⟨hI.members, hI.leaseIds⟩ _
  rw [show (Stmt.wakeCooled (env.clock w.ticks)).apply _ = w.db.cleaned (env.clock w.ticks) from rfl]
    at hbody
  have hinvalid : Patch.Fails { state := some .failed, retryAt := some (env.clock w.ticks + 30000),
                                lastError := some (some "credential_not_valid") } :=
    ⟨rfl, rfl, _, rfl, by decide⟩
  have hunverified : Patch.Fails { state := some .failed, stage := some .warmup,
                                   lastError := some (some "credential_not_verified"),
                                   retryAt := some (env.clock w.ticks) } :=
    ⟨rfl, rfl, _, rfl, by decide⟩
  obtain ⟨_, w₁, h₁, hbody⟩ := Tx.bind_eq_ok.mp hbody
  obtain ⟨hsw₁, hk₁⟩ := updates_swept h₁ hinvalid hk₀ (waiting_invalid hk₀ hver₀)
  rw [Tx.bind_ok (select_run _ _)] at hbody
  obtain ⟨_, w₂, h₂, hbody⟩ := Tx.bind_eq_ok.mp hbody
  obtain ⟨hsw₂, hk₂⟩ := updates_swept h₂ hunverified hk₁ (waiting_unverified hk₁)
  rw [Tx.bind_ok (select_run _ _)] at hbody
  have hupd := hclean.trans (hsw₁.trans hsw₂)
  have hpast : Past env w₂ (env.clock w.ticks) :=
    ⟨w.ticks, Nat.lt_of_lt_of_le (Nat.lt_succ_self _) (hsw₁.trans hsw₂).before.ticks, rfl⟩
  have hend := Tx.forM_eq_ok (fun l v => Swept env w v ∧ Past env v (env.clock w.ticks)
      ∧ Expired (env.clock w.ticks) l v.db) (fun lease l v v' hv hstep => ?_)
    ⟨hupd, hpast, expired_expiredLeases hk₂ _⟩ hbody
  · exact hend.1
  · obtain ⟨hsw, hexp⟩ := reclaimLease_swept hv.2.1 hv.2.2 hstep
    exact ⟨hv.1.trans hsw, hv.2.1.mono hsw.before, hexp⟩

end GhcpConsole.Pool
