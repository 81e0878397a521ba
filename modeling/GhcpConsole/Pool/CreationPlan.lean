import Mathlib.Data.String.Basic
import GhcpConsole.Lib.SortBy
import GhcpConsole.Lib.Table
import GhcpConsole.Lib.Utf8
import GhcpConsole.Pool.Ranking

/-!
# The creation plan

`planCreations` over a valid list of enterprises: every pick is the best candidate after the picks
before it, the plan fills the room there is, and it does not depend on the order of the list. The
comparator of `rankCandidates` chains three comparisons; as one key it is lexicographic, and ids
tell the keys apart.
-/

namespace GhcpConsole.Pool

/-- What `assertEnterprises` asks for. -/
structure ValidEnterprises (rows : List PoolEnterprise) : Prop where
  ids : Keyed (·.id) rows
  counts : ∀ row ∈ rows, isCount row.cap = true ∧ isCount row.inventory = true

section Validity

variable {rows rows' : List PoolEnterprise}

theorem assertEnterprises_go {ids : List String} (h : ValidEnterprises rows)
    (hfresh : ∀ row ∈ rows, row.id ∉ ids) : assertEnterprises.go ids rows = .ok () := by
  induction rows generalizing ids with
  | nil => rfl
  | cons row rest ih =>
      obtain ⟨hcap, hinventory⟩ := h.counts row (List.mem_cons_self ..)
      have hkeys := List.nodup_cons.mp h.ids
      have hrest : ValidEnterprises rest :=
        ⟨hkeys.2, fun r hr => h.counts r (List.mem_cons_of_mem _ hr)⟩
      rw [assertEnterprises.go, if_neg (hfresh row (List.mem_cons_self ..))]
      simp only [hcap, hinventory, Bool.not_true, Bool.or_self, Bool.false_eq_true, if_false]
      refine ih hrest fun r hr hmem => ?_
      rcases List.mem_cons.mp hmem with heq | hold
      · exact hkeys.1 (List.mem_map.mpr ⟨r, hr, heq⟩)
      · exact hfresh r (List.mem_cons_of_mem _ hr) hold

theorem assertEnterprises_ok (h : ValidEnterprises rows) : assertEnterprises rows = .ok () :=
  assertEnterprises_go h (by simp)

theorem ValidEnterprises.perm (h : ValidEnterprises rows) (hperm : rows.Perm rows') :
    ValidEnterprises rows' :=
  ⟨(hperm.map _).nodup_iff.mp h.ids, fun row hrow => h.counts row (hperm.mem_iff.mpr hrow)⟩

end Validity

/-! ## The comparator as a key -/

theorem compareText_le (a b : String) : compareText a b ≠ .gt ↔ textKey a ≤ textKey b := by
  unfold compareText
  split
  · rename_i less
    simpa using less.le
  · split
    · rename_i greater
      simpa using greater
    · rename_i notGreater
      simpa using notGreater

theorem textKey_injective {a b : String} (same : textKey a = textKey b) : a = b :=
  JsString.utf16_injective (List.map_injective_iff.mpr (fun _ _ => UInt16.toNat_inj.mp) same)

/-- What the ranking makes as large as it can. -/
def rankWeight (totals : PoolTotals) (row : PoolEnterprise) : Int :=
  if totals.inventory = 0 then row.cap else shareScore row totals

def rankKey (totals : PoolTotals) (rank : String → Nat) (row : PoolEnterprise) :
    Lex (Int × Lex (Nat × List Nat)) :=
  toLex (-rankWeight totals row, toLex (rank row.id, textKey row.id))

theorem rankOrder_le (totals : PoolTotals) (rank : String → Nat) (a b : PoolEnterprise) :
    rankOrder totals (fun x y => compare (rank x) (rank y)) a b ≠ .gt ↔
      rankKey totals rank a ≤ rankKey totals rank b := by
  have hprimary : (if totals.inventory = 0 then byCapDescending a b
      else byScoreDescending totals a b) = compare (rankWeight totals b) (rankWeight totals a) := by
    unfold rankWeight
    split
    · show compareOfLessAndEq b.cap a.cap = compareOfLessAndEq (b.cap : Int) (a.cap : Int)
      simp only [compareOfLessAndEq, Int.ofNat_lt, Int.ofNat_inj]
    · rfl
  have hlt : -rankWeight totals a < -rankWeight totals b ↔ rankWeight totals b < rankWeight totals a := by
    omega
  have heq : -rankWeight totals a = -rankWeight totals b ↔ rankWeight totals b = rankWeight totals a := by
    omega
  unfold rankOrder rankKey
  rw [hprimary, Ordering.then_assoc, then_ne_gt, then_ne_gt, Prod.Lex.toLex_le_toLex,
    Prod.Lex.toLex_le_toLex, compare_lt_iff_lt, compare_eq_iff_eq, compare_lt_iff_lt,
    compare_eq_iff_eq, compareText_le, hlt, heq]

theorem rankKey_id {totals : PoolTotals} {rank : String → Nat} {a b : PoolEnterprise}
    (h : rankKey totals rank a = rankKey totals rank b) : a.id = b.id :=
  textKey_injective (congrArg (fun key => (ofLex (ofLex key).2).2) h)

/-! ## One pick -/

/-- The candidate the ranking puts first. -/
def BestPick (rows : List PoolEnterprise) (id : String) : Prop :=
  ∃ row ∈ rows, row.id = id ∧ row.eligible = true ∧ row.inventory < row.cap
    ∧ ∀ other ∈ rows, other.eligible = true → other.inventory < other.cap →
      rankWeight (poolTotals rows) other ≤ rankWeight (poolTotals rows) row

section Pick

variable {rows rows' : List PoolEnterprise} {ordinal : Nat} {id next : String} {rest : List String}

theorem rankEnterprisesForCreation_ok (h : ValidEnterprises rows) (ordinal : Nat) :
    rankEnterprisesForCreation rows ordinal = .ok (rankCandidates rows
      (rows.filter fun row => row.eligible && row.inventory < row.cap)
      fun a b => compare (rotationRank rows ordinal a) (rotationRank rows ordinal b)) := by
  rw [rankEnterprisesForCreation, assertEnterprises_ok h]

theorem rankEnterprisesForCreation_best (h : ValidEnterprises rows)
    (hrank : rankEnterprisesForCreation rows ordinal = .ok (next :: rest)) : BestPick rows next := by
  rw [rankEnterprisesForCreation_ok h] at hrank
  obtain ⟨row, tail, hsorted, rfl, -⟩ := List.map_eq_cons_iff.mp (Except.ok.inj hrank)
  obtain ⟨hrow, hleast⟩ := insertionSort_head
    (rankOrder_le (poolTotals rows) (rotationRank rows ordinal)) hsorted
  obtain ⟨hmem, hguard⟩ := List.mem_filter.mp hrow
  simp only [Bool.and_eq_true, decide_eq_true_eq] at hguard
  refine ⟨row, hmem, rfl, hguard.1, hguard.2, ?_⟩
  intro other hother helig hbelow
  have hle := hleast other (List.mem_filter.mpr ⟨hother, by simp [helig, hbelow]⟩)
  rw [rankKey, rankKey, Prod.Lex.toLex_le_toLex] at hle
  dsimp only at hle
  rcases hle with hlt | ⟨heq, -⟩ <;> omega

theorem rankEnterprisesForCreation_nil (h : ValidEnterprises rows)
    (hrank : rankEnterprisesForCreation rows ordinal = .ok []) :
    ∀ row ∈ rows, row.eligible = true → row.cap ≤ row.inventory := by
  rw [rankEnterprisesForCreation_ok h] at hrank
  have hnil := List.map_eq_nil_iff.mp (Except.ok.inj hrank)
  have hlength := congrArg List.length hnil
  rw [List.length_insertionSort, List.length_nil, List.length_eq_zero_iff] at hlength
  intro row hrow helig
  have hout := List.filter_eq_nil_iff.mp hlength row hrow
  simp only [helig, Bool.true_and, decide_eq_true_eq] at hout
  omega

/-- The order of the list does not matter. -/
theorem rankEnterprisesForCreation_perm (h : ValidEnterprises rows) (hperm : rows.Perm rows')
    (ordinal : Nat) :
    rankEnterprisesForCreation rows ordinal = rankEnterprisesForCreation rows' ordinal := by
  have htotals : poolTotals rows = poolTotals rows' := by
    unfold poolTotals
    rw [(hperm.map _).sum_nat, (hperm.map _).sum_nat]
  have hids : (rows.map (·.id)).insertionSort (fun a b => compareText a b ≠ .gt)
      = (rows'.map (·.id)).insertionSort fun a b => compareText a b ≠ .gt :=
    insertionSort_perm_eq compareText_le (fun _ _ _ _ => textKey_injective) (hperm.map _)
  have hrotation : rotationRank rows ordinal = rotationRank rows' ordinal := by
    funext id
    unfold rotationRank
    rw [hids]
  rw [rankEnterprisesForCreation_ok h, rankEnterprisesForCreation_ok (h.perm hperm)]
  unfold rankCandidates
  rw [htotals, hrotation]
  congr 2
  refine insertionSort_perm_eq (rankOrder_le (poolTotals rows') (rotationRank rows' ordinal)) ?_
    (hperm.filter _)
  intro a ha b hb heq
  exact h.ids.eq (List.mem_filter.mp ha).1 (List.mem_filter.mp hb).1 (rankKey_id heq)

end Pick

/-! ## The picks before -/

/-- The enterprises with the inventories after those picks. -/
def afterPicks (rows : List PoolEnterprise) (picks : List String) : List PoolEnterprise :=
  rows.map fun row => { row with inventory := row.inventory + picks.count row.id }

/-- How many members the eligible enterprises have room for. -/
def room (rows : List PoolEnterprise) : Nat :=
  (rows.map fun row => if row.eligible then row.cap - row.inventory else 0).sum

section Picks

variable {rows rows' : List PoolEnterprise} {ordinal : Nat} {id next : String} {row : PoolEnterprise}

theorem raiseInventory_eq (next : String) (rows : List PoolEnterprise) :
    raiseInventory next rows = afterPicks rows [next] := by
  refine List.map_congr_left fun row _ => ?_
  by_cases heq : row.id = next
  · simp [heq]
  · simp [heq, Ne.symm heq]

theorem afterPicks_append (rows : List PoolEnterprise) (p q : List String) :
    afterPicks (afterPicks rows p) q = afterPicks rows (p ++ q) := by
  simp [afterPicks, List.map_map, Function.comp_def, Nat.add_assoc]

theorem afterPicks_nil (rows : List PoolEnterprise) : afterPicks rows [] = rows := by
  simp [afterPicks]

/-- A pick changes one row. -/
theorem raiseInventory_split (h : Keyed (·.id) rows) (hrow : row ∈ rows) :
    ∃ l l', rows = l ++ row :: l' ∧ raiseInventory row.id rows =
      l ++ { row with inventory := row.inventory + 1 } :: l' := by
  obtain ⟨l, l', rfl⟩ := List.append_of_mem hrow
  refine ⟨l, l', rfl, ?_⟩
  have hother : ∀ r, r ∈ l ∨ r ∈ l' → r.id ≠ row.id := by
    have hkeys : ((l ++ row :: l').map (·.id)).Nodup := h
    rw [List.map_append, List.map_cons, List.nodup_append] at hkeys
    obtain ⟨-, hright, hcross⟩ := hkeys
    rintro r (hr | hr) heq
    · exact hcross _ (List.mem_map_of_mem hr) _ (List.mem_cons_self ..) heq
    · exact (List.nodup_cons.mp hright).1 (List.mem_map.mpr ⟨r, hr, heq⟩)
  have hkeep : ∀ k : List PoolEnterprise, (∀ r ∈ k, r.id ≠ row.id) → raiseInventory row.id k = k := by
    intro k hk
    conv_rhs => rw [← List.map_id k]
    exact List.map_congr_left fun r hr => if_neg (hk r hr)
  have hleft := hkeep l fun r hr => hother r (.inl hr)
  have hright := hkeep l' fun r hr => hother r (.inr hr)
  unfold raiseInventory at *
  rw [List.map_append, List.map_cons, hleft, hright, if_pos rfl]

theorem raiseInventory_valid (h : ValidEnterprises rows) (hbest : BestPick rows next) :
    ValidEnterprises (raiseInventory next rows) := by
  obtain ⟨row, hrow, rfl, -, hbelow, -⟩ := hbest
  refine ⟨h.ids.map fun r => ?_, ?_⟩
  · split <;> rfl
  · intro r' hr'
    obtain ⟨r, hr, rfl⟩ := List.mem_map.mp hr'
    obtain ⟨hcap, hinventory⟩ := h.counts r hr
    split
    · rename_i hid
      obtain rfl : r = row := h.ids.eq hr hrow hid
      refine ⟨hcap, ?_⟩
      unfold isCount at *
      simp only [decide_eq_true_eq] at *
      omega
    · exact ⟨hcap, hinventory⟩

theorem raiseInventory_room (h : ValidEnterprises rows) (hbest : BestPick rows next) :
    room (raiseInventory next rows) + 1 = room rows := by
  obtain ⟨row, hrow, rfl, helig, hbelow, -⟩ := hbest
  obtain ⟨l, l', hrows, hraised⟩ := raiseInventory_split h.ids hrow
  rw [hraised]
  conv_rhs => rw [hrows]
  simp only [room, List.map_append, List.map_cons, List.sum_append, List.sum_cons, helig, if_true]
  have hone : row.cap - row.inventory = row.cap - (row.inventory + 1) + 1 := by omega
  rw [hone]
  omega

theorem room_eq_zero (h : ∀ row ∈ rows, row.eligible = true → row.cap ≤ row.inventory) :
    room rows = 0 := by
  refine List.sum_eq_zero_iff_forall_eq_nat.mpr fun n hn => ?_
  obtain ⟨row, hrow, rfl⟩ := List.mem_map.mp hn
  split
  · exact Nat.sub_eq_zero_of_le (h row hrow ‹_›)
  · rfl

theorem raiseInventory_perm (hperm : rows.Perm rows') (next : String) :
    (raiseInventory next rows).Perm (raiseInventory next rows') := hperm.map _

end Picks

/-! ## The whole plan -/

section Plan

variable {rows rows' : List PoolEnterprise} {ordinal deficit : Nat} {plan : List String}

theorem planCreations_ok (h : ValidEnterprises rows) (ordinal deficit : Nat) :
    ∃ plan, planCreations rows ordinal deficit = .ok plan ∧ plan.length = min deficit (room rows)
      ∧ ∀ i (hi : i < plan.length), BestPick (afterPicks rows (plan.take i)) plan[i] := by
  induction deficit generalizing rows ordinal with
  | zero => exact ⟨[], rfl, by simp, by simp⟩
  | succ deficit ih =>
      rw [planCreations]
      cases hrank : rankEnterprisesForCreation rows ordinal with
      | error e =>
          rw [rankEnterprisesForCreation_ok h] at hrank
          cases hrank
      | ok ranked =>
          cases ranked with
          | nil =>
              have hroom := room_eq_zero (rankEnterprisesForCreation_nil h hrank)
              exact ⟨[], rfl, by simp [hroom], by simp⟩
          | cons next rest =>
              have hbest := rankEnterprisesForCreation_best h hrank
              obtain ⟨tail, htail, hlength, hpicks⟩ := ih (raiseInventory_valid h hbest) (ordinal + 1)
              have hroom := raiseInventory_room h hbest
              refine ⟨next :: tail, by simp only [htail], ?_, ?_⟩
              · rw [List.length_cons, hlength]
                omega
              · intro i hi
                cases i with
                | zero => simpa [afterPicks_nil] using hbest
                | succ i =>
                    have hpick := hpicks i (by simpa using hi)
                    rw [raiseInventory_eq, afterPicks_append] at hpick
                    simpa using hpick

theorem planCreations_perm (h : ValidEnterprises rows) (hperm : rows.Perm rows')
    (ordinal deficit : Nat) :
    planCreations rows ordinal deficit = planCreations rows' ordinal deficit := by
  induction deficit generalizing rows rows' ordinal with
  | zero => rfl
  | succ deficit ih =>
      rw [planCreations, planCreations, ← rankEnterprisesForCreation_perm h hperm]
      cases hrank : rankEnterprisesForCreation rows ordinal with
      | error e => rfl
      | ok ranked =>
          cases ranked with
          | nil => rfl
          | cons next rest =>
              have hbest := rankEnterprisesForCreation_best h hrank
              simp only [ih (raiseInventory_valid h hbest) (raiseInventory_perm hperm next)]

/-- From any state of the pool: the plan is as long as the deficit and the room allow; only eligible
enterprises are picked, and none beyond its cap; every pick has the largest score among the
candidates after the picks before it, the largest cap while the pool is empty; and the order of the
list does not matter. -/
theorem creation_plan (h : ValidEnterprises rows) (ordinal deficit : Nat) :
    ∃ plan, planCreations rows ordinal deficit = .ok plan
      ∧ plan.length = min deficit (room rows)
      ∧ (∀ id ∈ plan, ∃ row ∈ rows, row.id = id ∧ row.eligible = true
          ∧ row.inventory + plan.count id ≤ row.cap)
      ∧ (∀ i (hi : i < plan.length), BestPick (afterPicks rows (plan.take i)) plan[i])
      ∧ ∀ rows', rows.Perm rows' → planCreations rows' ordinal deficit = .ok plan := by
  obtain ⟨plan, hplan, hlength, hpicks⟩ := planCreations_ok h ordinal deficit
  refine ⟨plan, hplan, hlength, planCreations_mem hplan, hpicks, ?_⟩
  intro rows' hperm
  rw [← planCreations_perm h hperm]
  exact hplan

def sampleEnterprises : List PoolEnterprise :=
  [{ id := "acme", cap := 3, inventory := 1, eligible := true },
    { id := "initech", cap := 2, inventory := 5, eligible := false },
    { id := "globex", cap := 1, inventory := 0, eligible := true }]

theorem sampleEnterprises_valid : ValidEnterprises sampleEnterprises :=
  ⟨by decide, by decide⟩

theorem creation_plan_sample :
    planCreations sampleEnterprises 7 9 = .ok ["acme", "acme", "globex"]
    ∧ ∃ plan, planCreations sampleEnterprises 7 9 = .ok plan
        ∧ plan.length = min 9 (room sampleEnterprises) := by
  obtain ⟨plan, hplan, hlength, -⟩ := creation_plan sampleEnterprises_valid 7 9
  exact ⟨by decide +kernel, plan, hplan, hlength⟩

end Plan

end GhcpConsole.Pool
