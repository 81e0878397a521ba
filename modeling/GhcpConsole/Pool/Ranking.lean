import Mathlib.Data.List.Sort
import GhcpConsole.Lib.CodeUnits
import GhcpConsole.Pool.Schema
import Mathlib.Algebra.Group.Int.Defs
import Mathlib.Algebra.GroupWithZero.Nat

/-!
# Ranking enterprises

The shared pool ranking (`poolRanking.ts`): share scores, the two rankings, the replenishment
deficit and the creation plan. The scores are exact integers here; the source computes them in
doubles, which agree below `2^53`.

`Array.prototype.sort` is stable, and so is `List.insertionSort`; comparators are `Ordering`s.
-/

namespace GhcpConsole.Pool

structure PoolEnterprise where
  id : String
  /-- C_e. -/
  cap : Nat
  /-- N_e. -/
  inventory : Nat
  eligible : Bool
deriving DecidableEq, Repr

structure PoolTotals where
  capacity : Nat
  inventory : Nat
deriving DecidableEq, Repr

def poolTotals (enterprises : List PoolEnterprise) : PoolTotals where
  capacity := (enterprises.map (·.cap)).sum
  inventory := (enterprises.map (·.inventory)).sum

/-- `Number.isSafeInteger(value) && value >= 0`. -/
def isCount (value : Nat) : Bool := value < 2 ^ 53

/-- `assertEnterprises`: distinct ids and valid counts, else a `RangeError`. -/
def assertEnterprises (enterprises : List PoolEnterprise) : Except StoreError Unit :=
  go [] enterprises
where
  go (ids : List String) : List PoolEnterprise → Except StoreError Unit
    | [] => .ok ()
    | row :: rest =>
        if row.id ∈ ids then .error (.other s!"duplicate enterprise {row.id}")
        else if !isCount row.cap || !isCount row.inventory then
          .error (.other s!"invalid pool counts for {row.id}")
        else go (row.id :: ids) rest

def shareScore (enterprise : PoolEnterprise) (totals : PoolTotals) : Int :=
  totals.inventory * enterprise.cap - totals.capacity * enterprise.inventory

/-- What the order of texts goes by: the UTF-16 units, one after the other. -/
def textKey (text : String) : List Nat := (utf16 text).map UInt16.toNat

def compareText (a b : String) : Ordering :=
  if textKey a < textKey b then .lt else if textKey b < textKey a then .gt else .eq

def byCapDescending (a b : PoolEnterprise) : Ordering := compare b.cap a.cap

def byScoreDescending (totals : PoolTotals) (a b : PoolEnterprise) : Ordering :=
  compare (shareScore b totals) (shareScore a totals)

/-- The order `rankCandidates` sorts by: the primary key, then the tie order, then the id. -/
def rankOrder (totals : PoolTotals) (tieOrder : String → String → Ordering)
    (a b : PoolEnterprise) : Ordering :=
  ((if totals.inventory = 0 then byCapDescending a b else byScoreDescending totals a b).then
    (tieOrder a.id b.id)).then (compareText a.id b.id)

def rankCandidates (enterprises candidates : List PoolEnterprise)
    (tieOrder : String → String → Ordering) : List String :=
  (candidates.insertionSort fun a b =>
    rankOrder (poolTotals enterprises) tieOrder a b ≠ .gt).map (·.id)

/-- The place of `id` among the sorted ids rotated left by `ordinal % n`. -/
def rotationRank (enterprises : List PoolEnterprise) (ordinal : Nat) (id : String) : Nat :=
  let ids := (enterprises.map (·.id)).insertionSort fun a b => compareText a b ≠ .gt
  let count := ids.length
  (ids.idxOf id + count - ordinal % count) % count

def rankEnterprisesForCreation (enterprises : List PoolEnterprise) (ordinal : Nat) :
    Except StoreError (List String) :=
  match assertEnterprises enterprises with
  | .error e => .error e
  | .ok () => .ok (rankCandidates enterprises
      (enterprises.filter fun row => row.eligible && row.inventory < row.cap)
      fun a b => compare (rotationRank enterprises ordinal a) (rotationRank enterprises ordinal b))

/-- `rankEnterprisesForAdmission`; every row is passed with `eligibleIdle > 0`. -/
def rankEnterprisesForAdmission (callerHash : String → String → String)
    (enterprises : List PoolEnterprise) (caller : String) : Except StoreError (List String) :=
  match assertEnterprises enterprises with
  | .error e => .error e
  | .ok () => .ok (rankCandidates enterprises (enterprises.filter (·.eligible))
      fun a b => compareText (callerHash caller a) (callerHash caller b))

/-- D = max(0, T − I − P); a global pause wins over everything. -/
def replenishmentDeficit (idleTarget readyIdle inFlight : Nat) (paused : Bool) : Nat :=
  if paused then 0 else idleTarget - readyIdle - inFlight

/-- `byId.get(next)!.inventory += 1`. -/
def raiseInventory (next : String) (enterprises : List PoolEnterprise) : List PoolEnterprise :=
  enterprises.map fun row =>
    if row.id = next then { row with inventory := row.inventory + 1 } else row

/-- `planCreations`: re-rank after every pick, stop early once no enterprise is below its cap. -/
def planCreations (enterprises : List PoolEnterprise) (ordinal : Nat) :
    Nat → Except StoreError (List String)
  | 0 => .ok []
  | deficit + 1 =>
      match rankEnterprisesForCreation enterprises ordinal with
      | .error e => .error e
      | .ok [] => .ok []
      | .ok (next :: _) =>
          match planCreations (raiseInventory next enterprises) (ordinal + 1) deficit with
          | .error e => .error e
          | .ok plan => .ok (next :: plan)

/-! ## What a plan picks -/

theorem mem_rankCandidates {enterprises candidates : List PoolEnterprise}
    {tieOrder : String → String → Ordering} {id : String}
    (h : id ∈ rankCandidates enterprises candidates tieOrder) :
    ∃ row ∈ candidates, row.id = id := by
  obtain ⟨row, hrow, rfl⟩ := List.mem_map.mp h
  exact ⟨row, (List.mem_insertionSort _).mp hrow, rfl⟩

/-- The first pick is an eligible enterprise below its cap. -/
theorem rankEnterprisesForCreation_head {enterprises : List PoolEnterprise} {ordinal : Nat}
    {next : String} {rest : List String}
    (h : rankEnterprisesForCreation enterprises ordinal = .ok (next :: rest)) :
    ∃ row ∈ enterprises, row.id = next ∧ row.eligible = true ∧ row.inventory < row.cap := by
  rw [rankEnterprisesForCreation] at h
  split at h
  · cases h
  · obtain ⟨row, hrow, rfl⟩ := mem_rankCandidates
      (show next ∈ _ by rw [Except.ok.inj h]; exact List.mem_cons_self ..)
    obtain ⟨hmem, hp⟩ := List.mem_filter.mp hrow
    simp only [Bool.and_eq_true, decide_eq_true_eq] at hp
    exact ⟨row, hmem, rfl, hp.1, hp.2⟩

/-- Every id a plan picks belongs to an eligible row, and the plan keeps that row's cap. -/
theorem planCreations_mem {enterprises : List PoolEnterprise} {ordinal deficit : Nat}
    {plan : List String} (h : planCreations enterprises ordinal deficit = .ok plan) :
    ∀ id ∈ plan, ∃ row ∈ enterprises, row.id = id ∧ row.eligible = true
      ∧ row.inventory + plan.count id ≤ row.cap := by
  induction deficit generalizing enterprises ordinal plan with
  | zero =>
      obtain rfl := Except.ok.inj h
      intro id hid
      cases hid
  | succ deficit ih =>
      rw [planCreations] at h
      split at h
      · cases h
      · obtain rfl := Except.ok.inj h
        intro id hid
        cases hid
      · rename_i next rest hrank
        split at h
        · cases h
        · rename_i tail htail
          obtain rfl := Except.ok.inj h
          obtain ⟨first, hfirst, hid, helig, hlt⟩ := rankEnterprisesForCreation_head hrank
          have hrest := ih htail
          -- a row of the raised list comes from a row of the same id, one lower at `next`
          have hback : ∀ id ∈ tail, ∃ row ∈ enterprises, row.id = id ∧ row.eligible = true
              ∧ row.inventory + (if row.id = next then 1 else 0) + tail.count id ≤ row.cap := by
            intro id hmem
            obtain ⟨row', hrow', hid', helig', hle⟩ := hrest id hmem
            obtain ⟨row, hrow, rfl⟩ := List.mem_map.mp hrow'
            refine ⟨row, hrow, ?_⟩
            split at hid' <;> simp_all
          intro id hmem
          by_cases hnext : id = next
          · subst hnext
            by_cases htl : id ∈ tail
            · obtain ⟨row, hrow, hrid, hrelig, hle⟩ := hback id htl
              refine ⟨row, hrow, hrid, hrelig, ?_⟩
              rw [if_pos hrid] at hle
              rw [List.count_cons_self]
              omega
            · refine ⟨first, hfirst, hid, helig, ?_⟩
              rw [List.count_cons_self, List.count_eq_zero_of_not_mem htl]
              omega
          · have htl : id ∈ tail := (List.mem_cons.mp hmem).resolve_left hnext
            obtain ⟨row, hrow, hrid, hrelig, hle⟩ := hback id htl
            refine ⟨row, hrow, hrid, hrelig, ?_⟩
            rw [if_neg (by rw [hrid]; exact hnext)] at hle
            rw [List.count_cons_of_ne (Ne.symm hnext)]
            omega

theorem planCreations_length {enterprises : List PoolEnterprise} {ordinal deficit : Nat}
    {plan : List String} (h : planCreations enterprises ordinal deficit = .ok plan) :
    plan.length ≤ deficit := by
  induction deficit generalizing enterprises ordinal plan with
  | zero =>
      obtain rfl := Except.ok.inj h
      exact Nat.le_refl _
  | succ deficit ih =>
      rw [planCreations] at h
      split at h
      · cases h
      · obtain rfl := Except.ok.inj h
        exact Nat.zero_le _
      · split at h
        · cases h
        · rename_i htail
          obtain rfl := Except.ok.inj h
          exact Nat.succ_le_succ (ih htail)

end GhcpConsole.Pool
