import Mathlib.Data.List.Chain
import Mathlib.Data.List.Perm.Subperm
import GhcpConsole.Lib.SortBy
import GhcpConsole.Pool.AdmissionSteps

/-!
# No work waits for ever

`pending` takes three rows in four by how far they have come, and the fourth by age alone. A row that
is waiting with `k` rows ahead of it by age is taken within `4 * (k + 1)` selections, whatever comes
later, as long as nothing gets ahead of it by age (`pending_within`).
-/

namespace GhcpConsole.Pool

open Tx (Keeps)

/-! ## The counter of selections -/

section Counter

variable (env : Env)

theorem keeps_now : Keeps World.selections (now env) := fun _ => rfl

theorem keeps_select {α : Type} (q : Db → α) : Keeps World.selections (select q) := fun _ => rfl

theorem keeps_exec (st : Stmt) : Keeps World.selections (exec st) := fun _ => rfl

theorem keeps_transaction {α : Type} {m : StoreM α} (hm : Keeps World.selections m) :
    Keeps World.selections (transaction m) :=
  .transaction hm fun _ _ => rfl

theorem keeps_recordEvent (fields : EventFields) : Keeps World.selections (recordEvent env fields) :=
  fun _ => rfl

theorem keeps_hasHolds (identity : String) : Keeps World.selections (hasHolds env identity) :=
  fun _ => rfl

theorem keeps_matchesOwner (owner : Option String) :
    Keeps World.selections (matchesOwner env owner) := by
  cases owner <;> exact fun _ => rfl

theorem keeps_writePatch (identity : String) (patch : Patch) (row : Inventory) :
    Keeps World.selections (writePatch env identity patch row) := by
  refine .bind (keeps_now env) fun t => .bind (keeps_exec _) fun _ => ?_
  split
  · exact .bind (keeps_now env) fun _ => .bind (keeps_exec _) fun _ => .pure _
  · exact .pure _

theorem keeps_update (identity : String) (patch : Patch) (expected : Option InventoryFence)
    (owner : Option String) : Keeps World.selections (update env identity patch expected owner) := by
  refine keeps_transaction (.bind (keeps_select _) fun found => ?_)
  split
  · exact .pure _
  rename_i row
  split
  · exact .pure _
  refine .bind (keeps_matchesOwner env owner) fun owned => ?_
  split
  · exact .pure _
  split
  · exact .pure _
  have hwrite : ∀ held : Bool, Keeps World.selections
      (if held = true then pure false else writePatch env identity patch row) := fun held => by
    split
    · exact .pure _
    · exact keeps_writePatch env _ _ _
  split
  · exact .bind (keeps_hasHolds env identity) hwrite
  · exact .bind (.pure _) hwrite

theorem keeps_reclaimLease (lease : LeaseRow) :
    Keeps World.selections (reclaimLease env lease) := by
  refine .bind (keeps_hasHolds env _) fun held => ?_
  split
  · exact .pure _
  · exact .bind (keeps_exec _) fun _ => keeps_recordEvent env _

/-- A sweep does not count as a selection. -/
theorem keeps_reclaim : Keeps World.selections (reclaim env) := by
  refine keeps_transaction (.bind (keeps_now env) fun t => ?_)
  refine .bind (keeps_exec _) fun _ => .bind (keeps_exec _) fun _ => ?_
  refine .bind (keeps_exec _) fun _ => .bind (keeps_exec _) fun _ => ?_
  refine .bind (keeps_select _) fun invalid => .bind (.forM (fun identity => ?_) invalid) fun _ => ?_
  · exact .bind (keeps_update env _ _ _ _) fun _ => .pure _
  refine .bind (keeps_select _) fun unverified =>
    .bind (.forM (fun identity => ?_) unverified) fun _ => ?_
  · exact .bind (keeps_update env _ _ _ _) fun _ => .pure _
  exact .bind (keeps_select _) fun expired => .forM (keeps_reclaimLease env) expired

end Counter

/-! ## One selection -/

/-- The key that a selection by age sorts by. -/
def age (p : Inventory) : ℕ ×ₗ ℕ ×ₗ ℕ := toLex (p.retryAt, toLex (p.updatedAt, p.ordinal))

/-- A successful call of `pending`, and the row it returns. -/
structure Selection where
  world : World
  excluded : List String
  row : Inventory

namespace Selection

variable (env : Env) (s : Selection)

/-- The swept store that the query reads. -/
def swept : World := (reclaim env s.world).2

/-- The time that the query is asked with. -/
def time : Nat := env.clock (s.swept env).ticks

/-- The rows that the query sorts. -/
def eligible : List Inventory :=
  (s.swept env).db.members.filter
    (pendingEligible (s.swept env).db (s.time env) s.excluded (env.options.loginMaxPending.getD 5))

def Valid : Prop := (pending env s.excluded s.world).1 = .ok (some s.row)

/-- The counter after the call. -/
def counted : Nat := (pending env s.excluded s.world).2.selections

end Selection

section One

variable {env : Env} {s : Selection}

theorem pendingOrder_three (a b : Inventory) : pendingOrder 3 a b ≠ .gt ↔ age a ≤ age b := by
  rw [pendingOrder, if_pos rfl, age, age, Prod.Lex.toLex_le_toLex, Prod.Lex.toLex_le_toLex]
  show (compare a.retryAt b.retryAt).then _ ≠ .gt ↔ _
  rw [then_ne_gt, then_ne_gt, compare_lt_iff_lt, compare_eq_iff_eq, compare_lt_iff_lt,
    compare_eq_iff_eq, compare_le_iff_le]

/-- A valid selection takes the first row of a sweep, and counts. -/
theorem Selection.Valid.head (h : s.Valid env) :
    (orderBy (pendingOrder s.world.selections) (s.eligible env)).head? = some s.row
      ∧ s.counted env = (s.world.selections + 1) % 4 := by
  have hexec : pending env s.excluded s.world
      = (.ok (some s.row), (pending env s.excluded s.world).2) := Prod.ext h rfl
  unfold Selection.counted
  generalize (pending env s.excluded s.world).2 = w' at *
  obtain ⟨_, w₁, hread, hpending⟩ := Tx.bind_eq_ok.mp hexec
  obtain ⟨rfl, rfl⟩ := by simpa using hread
  obtain ⟨row, w₂, hpick, hpending⟩ := Tx.bind_eq_ok.mp hpending
  obtain ⟨rfl, rfl⟩ : row = some s.row ∧ w' = { w₂ with selections := (w₂.selections + 1) % 4 } := by
    cases row with
    | none => simp at hpending
    | some row =>
        simp only [Option.isSome_some, if_true, Tx.bind_run, Tx.write_run, Tx.pure_run,
          Prod.mk.injEq, Except.ok.injEq] at hpending
        exact ⟨hpending.1, hpending.2.symm⟩
  obtain ⟨_, v, hreclaim, hpick⟩ := Tx.bind_eq_ok.mp (Tx.transaction_eq_ok.mp hpick)
  have hswept : s.swept env = v := by rw [Selection.swept, hreclaim]
  have hkept : v.selections = s.world.selections := by
    rw [← hswept]
    exact keeps_reclaim env s.world
  rw [Tx.bind_ok (select_run _ _)] at hpick
  split at hpick
  · simp at hpick
  · rw [Tx.bind_ok (now_run env v)] at hpick
    obtain ⟨hhead, rfl⟩ := by simpa using hpick
    unfold Selection.eligible Selection.time
    rw [hswept]
    exact ⟨hhead, by rw [← hkept]⟩

theorem Selection.Valid.spec (h : s.Valid env) :
    s.row ∈ s.eligible env
      ∧ (s.world.selections = 3 → ∀ p ∈ s.eligible env, age s.row ≤ age p)
      ∧ s.counted env = (s.world.selections + 1) % 4 := by
  obtain ⟨hhead, hcounted⟩ := h.head
  refine ⟨mem_orderBy.mp (List.mem_of_mem_head? hhead), fun hthree => ?_, hcounted⟩
  rw [hthree] at hhead
  obtain ⟨rest, hsorted⟩ := List.head?_eq_some_iff.mp hhead
  exact (insertionSort_head pendingOrder_three hsorted).2

end One

/-! ## Successive selections -/

/-- Selections of one process, one after the other; in between, anything may happen to the store. -/
structure Successive (env : Env) (run : List Selection) : Prop where
  valid : ∀ s ∈ run, s.Valid env
  counter : ∀ s ∈ run, s.world.selections < 4
  counted : run.IsChain fun s s' => s'.world.selections = s.counted env

/-- The other rows that come before the row, or level with it, by age. -/
def Selection.ahead (env : Env) (r : Inventory) (s : Selection) : List Inventory :=
  (s.eligible env).filter fun p => p.identity ≠ r.identity && age p ≤ age r

/-- The row is eligible, at the age it had. -/
def Selection.Offers (env : Env) (r : Inventory) (s : Selection) : Prop :=
  ∃ p ∈ s.eligible env, p.identity = r.identity ∧ age p = age r

/-- What a row that was selected is given: from then on its `retry_at` is no earlier than the time
of the selection. -/
def Deferred (env : Env) (run : List Selection) : Prop :=
  run.Pairwise fun s s' => ∀ p ∈ s'.eligible env, p.identity = s.row.identity →
    s.time env ≤ p.retryAt

section Runs

variable {env : Env} {run : List Selection} {r : Inventory}

theorem Successive.tail {s : Selection} (h : Successive env (s :: run)) : Successive env run where
  valid s' hs' := h.valid s' (List.mem_cons_of_mem _ hs')
  counter s' hs' := h.counter s' (List.mem_cons_of_mem _ hs')
  counted := h.counted.tail

theorem Successive.take (h : Successive env run) (n : Nat) : Successive env (run.take n) where
  valid s hs := h.valid s (List.mem_of_mem_take hs)
  counter s hs := h.counter s (List.mem_of_mem_take hs)
  counted := h.counted.take n

/-- The counter goes on by one. -/
theorem Successive.next {s s' : Selection} (h : Successive env (s :: s' :: run)) :
    s'.world.selections = (s.world.selections + 1) % 4 := by
  have hcounted := (List.isChain_cons_cons.mp h.counted).1
  rw [hcounted]
  exact (h.valid s List.mem_cons_self).spec.2.2

/-- One selection in four is by age. -/
theorem Successive.count_age {n : Nat} (h : Successive env run) (hlength : run.length = 4 * n) :
    run.countP (fun s => s.world.selections = 3) = n := by
  induction n generalizing run with
  | zero =>
      obtain rfl := List.length_eq_zero_iff.mp hlength
      rfl
  | succ n ih =>
      match run, hlength with
      | a :: b :: c :: d :: rest, hlength =>
          have hrest : rest.length = 4 * n := by
            simp only [List.length_cons] at hlength
            omega
          have hcount := ih h.tail.tail.tail.tail hrest
          have ha := h.counter a List.mem_cons_self
          have hb := h.next
          have hc := h.tail.next
          have hd := h.tail.tail.next
          simp only [List.countP_cons, hcount, decide_eq_true_eq]
          split <;> split <;> split <;> split <;> omega

/-- By age, a row that is passed over is passed over for one ahead of it. -/
theorem ahead_of_age {s : Selection} (hvalid : s.Valid env) (hthree : s.world.selections = 3)
    (hoffers : s.Offers env r) (hother : s.row.identity ≠ r.identity) :
    s.row ∈ s.ahead env r := by
  obtain ⟨p, hp, -, hage⟩ := hoffers
  obtain ⟨hrow, hleast, -⟩ := hvalid.spec
  refine List.mem_filter.mpr ⟨hrow, ?_⟩
  have hle := hleast hthree p hp
  rw [hage] at hle
  simp [hother, hle]

/-- A row that was selected is not ahead of an older one again. -/
theorem not_ahead_of_deferred {s s' : Selection} {p : Inventory} (hbefore : r.retryAt < s.time env)
    (hdeferred : ∀ p ∈ s'.eligible env, p.identity = s.row.identity → s.time env ≤ p.retryAt)
    (hp : p ∈ s'.ahead env r) : p.identity ≠ s.row.identity := by
  intro hsame
  obtain ⟨heligible, hahead⟩ := List.mem_filter.mp hp
  have hlater := hdeferred p heligible hsame
  simp only [Bool.and_eq_true, decide_eq_true_eq, age, Prod.Lex.toLex_le_toLex] at hahead
  omega

/-- A row that stays eligible is taken within `4 * (k + 1)` selections, where `k` rows are ahead of
it at the first one and no further row gets ahead of it. -/
theorem pending_within (env : Env) (first : Selection) (rest : List Selection) (r : Inventory)
    (hrun : Successive env (first :: rest)) (hdeferred : Deferred env (first :: rest))
    (hoffers : ∀ s ∈ first :: rest, s.Offers env r)
    (hold : ∀ s ∈ first :: rest, r.retryAt < s.time env)
    (hbehind : ∀ s ∈ rest, ∀ p ∈ s.ahead env r,
      p.identity ∈ (first.ahead env r).map (·.identity))
    (hlength : 4 * ((first.ahead env r).length + 1) ≤ (first :: rest).length) :
    ∃ s ∈ (first :: rest).take (4 * ((first.ahead env r).length + 1)),
      s.row.identity = r.identity := by
  by_contra hnever
  have hnever : ∀ s ∈ (first :: rest).take (4 * ((first.ahead env r).length + 1)),
      s.row.identity ≠ r.identity := fun s hs heq => hnever ⟨s, hs, heq⟩
  have hcount := (hrun.take _).count_age (List.length_take_of_le hlength)
  generalize hwindow : (first :: rest).take (4 * ((first.ahead env r).length + 1)) = window at *
  have hsub : window.Sublist (first :: rest) := hwindow ▸ List.take_sublist _ _
  let aged := window.filter fun s => s.world.selections = 3
  have haged : aged.Sublist (first :: rest) := List.filter_sublist.trans hsub
  have hahead : ∀ s ∈ aged, s.row ∈ s.ahead env r := fun s hs => by
    obtain ⟨hmem, hthree⟩ := List.mem_filter.mp hs
    exact ahead_of_age (hrun.valid s (hsub.mem hmem)) (by simpa using hthree)
      (hoffers s (hsub.mem hmem)) (hnever s hmem)
  have hknown : aged.map (·.row.identity) ⊆ (first.ahead env r).map (·.identity) := by
    intro identity hidentity
    obtain ⟨s, hs, rfl⟩ := List.mem_map.mp hidentity
    rcases List.mem_cons.mp (haged.mem hs) with rfl | hrest
    · exact List.mem_map_of_mem (hahead s hs)
    · exact hbehind s hrest s.row (hahead s hs)
  -- each selection by age takes another of the rows ahead
  have hdistinct : (aged.map (·.row.identity)).Nodup := by
    refine List.pairwise_map.mpr (List.Pairwise.imp_of_mem ?_ (hdeferred.sublist haged))
    intro s s' hs hs' hlater
    exact (not_ahead_of_deferred (hold s (haged.mem hs)) hlater (hahead s' hs')).symm
  have hle := (List.subperm_of_subset hdistinct hknown).length_le
  rw [List.length_map, List.length_map, ← List.countP_eq_length_filter, hcount] at hle
  omega

end Runs

/-! ## Runs of four and of eight -/

namespace Sample

/-- A clock that stands still. -/
def steady : Env :=
  { env with clock := fun _ => 1000, clock_mono := fun _ _ _ => Nat.le_refl _ }

def waiting (identity : String) (ordinal : Nat) (stage : Stage) (retryAt : Nat) : Inventory :=
  { member identity ordinal with state := .provisioning, stage, retryAt, updatedAt := retryAt }

def selection (counter : Nat) (row : Inventory) (others : List Inventory) : Selection where
  world := { world with db := { db with members := row :: others }, selections := counter }
  excluded := []
  row

/-- The row that waits. -/
def early : Inventory := waiting "r" 1 .new 500

/-- Rows of a later stage come one after the other, all of them younger. -/
def arrivals : List Selection :=
  [selection 0 (waiting "y0" 2 .warmup 600) [early], selection 1 (waiting "y1" 3 .warmup 600) [early],
    selection 2 (waiting "y2" 4 .warmup 600) [early], selection 3 early [waiting "y3" 5 .warmup 600]]

theorem arrivals_within : ∃ s ∈ arrivals.take 4, s.row.identity = early.identity :=
  pending_within steady (selection 0 (waiting "y0" 2 .warmup 600) [early]) _ early
    ⟨by unfold Selection.Valid; decide +kernel, by decide +kernel, by decide +kernel⟩
    (by unfold Deferred; decide +kernel) (by unfold Selection.Offers; decide +kernel)
    (by decide +kernel) (by decide +kernel) (by decide +kernel)

/-- The bound, with nothing asked of the rows that become eligible but a later stage. -/
def WithinAsStated (env : Env) (first : Selection) (rest : List Selection) (r : Inventory) : Prop :=
  Successive env (first :: rest) → Deferred env (first :: rest) →
    (∀ s ∈ first :: rest, s.Offers env r) →
    (∀ s ∈ rest, ∀ p ∈ s.ahead env r, p.identity ∈ (first.ahead env r).map (·.identity)
      ∨ progressOrder p.stage < progressOrder r.stage) →
    4 * ((first.ahead env r).length + 1) ≤ (first :: rest).length →
    ∃ s ∈ (first :: rest).take (4 * ((first.ahead env r).length + 1)), s.row.identity = r.identity

/-- A row that becomes eligible with an older `retry_at` is taken by age, and a row that is deferred
to the very time at which it was selected is taken again. -/
theorem pending_within_as_stated :
    ¬WithinAsStated steady (selection 0 (waiting "y0" 2 .warmup 600) [early])
        [selection 1 (waiting "y1" 3 .warmup 600) [early],
          selection 2 (waiting "y2" 4 .warmup 600) [early],
          selection 3 (waiting "y3" 5 .warmup 0) [early]] early
      ∧ ¬WithinAsStated steady (selection 0 (waiting "x" 0 .new 1000) [waiting "r" 1 .new 1000])
        ((List.range 7).map fun n =>
          selection ((n + 1) % 4) (waiting "x" 0 .new 1000) [waiting "r" 1 .new 1000])
        (waiting "r" 1 .new 1000) := by
  constructor
  · intro h
    exact absurd (h ⟨by unfold Selection.Valid; decide +kernel, by decide +kernel, by decide +kernel⟩
      (by unfold Deferred; decide +kernel) (by unfold Selection.Offers; decide +kernel)
      (by decide +kernel) (by decide +kernel)) (by decide +kernel)
  · intro h
    exact absurd (h ⟨by unfold Selection.Valid; decide +kernel, by decide +kernel, by decide +kernel⟩
      (by unfold Deferred; decide +kernel) (by unfold Selection.Offers; decide +kernel)
      (by decide +kernel) (by decide +kernel)) (by decide +kernel)

end Sample

end GhcpConsole.Pool
