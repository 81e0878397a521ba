import Mathlib.Algebra.Order.Field.Rat
import Mathlib.Tactic.FieldSimp
import GhcpConsole.Lib.Apportionment
import GhcpConsole.Pool.CreationPlan

/-!
# Fair shares

The plan for an empty pool is a greedy apportionment: the enterprises are the parties, their caps the
weights, and a pick is a seat for a party of the largest score.
-/

namespace GhcpConsole.Pool

open Finset

/-- An empty pool with room in every enterprise. -/
structure EmptyPool (rows : List PoolEnterprise) : Prop extends ValidEnterprises rows where
  positive : ∀ row ∈ rows, 0 < row.cap
  empty : ∀ row ∈ rows, row.inventory = 0
  eligible : ∀ row ∈ rows, row.eligible = true

section Shares

variable {rows : List PoolEnterprise} {plan picks : List String} {row : PoolEnterprise}

theorem ValidEnterprises.nodup (h : ValidEnterprises rows) : rows.Nodup := List.Nodup.of_map _ h.ids

theorem sum_caps (h : ValidEnterprises rows) :
    ∑ row ∈ rows.toFinset, row.cap = (poolTotals rows).capacity :=
  List.sum_toFinset _ h.nodup

/-- Every pick is one of the enterprises, so the picks of each add up to all of them. -/
theorem sum_picks (h : ValidEnterprises rows) (hmem : ∀ id ∈ picks, ∃ row ∈ rows, row.id = id) :
    ∑ row ∈ rows.toFinset, picks.count row.id = picks.length := by
  induction picks with
  | nil => simp
  | cons id rest ih =>
      obtain ⟨row, hrow, rfl⟩ := hmem id (List.mem_cons_self ..)
      rw [sum_seat (e := row) (n := fun row => rest.count row.id) (by simpa using hrow),
        ih fun id hid => hmem id (List.mem_cons_of_mem _ hid), List.length_cons]
      intro f hf
      rw [List.count_cons]
      have hiff : row.id == f.id ↔ f = row := by
        rw [beq_iff_eq]
        exact ⟨fun heq => h.ids.eq (by simpa using hf) hrow heq.symm, fun heq => heq ▸ rfl⟩
      simp only [hiff]

theorem totals_afterPicks (h : EmptyPool rows) (hmem : ∀ id ∈ picks, ∃ row ∈ rows, row.id = id) :
    poolTotals (afterPicks rows picks) =
      { capacity := (poolTotals rows).capacity, inventory := picks.length } := by
  have hinventory : (rows.map fun row => row.inventory + picks.count row.id).sum = picks.length := by
    rw [← sum_picks h.toValidEnterprises hmem, List.sum_toFinset _ h.nodup]
    refine congrArg List.sum (List.map_congr_left fun row hrow => ?_)
    rw [h.empty row hrow, Nat.zero_add]
  unfold poolTotals afterPicks
  simp only [List.map_map, Function.comp_def, hinventory]

theorem room_empty (h : EmptyPool rows) : room rows = (poolTotals rows).capacity := by
  unfold room poolTotals
  refine congrArg List.sum (List.map_congr_left fun row hrow => ?_)
  rw [if_pos (h.eligible row hrow), h.empty row hrow, Nat.sub_zero]

/-- The best pick is not above its share. -/
theorem BestPick.below_share (h : EmptyPool rows) (hmem : ∀ id ∈ picks, ∃ row ∈ rows, row.id = id)
    (hle : ∀ row ∈ rows, picks.count row.id ≤ row.cap) {id : String}
    (hbest : BestPick (afterPicks rows picks) id) :
    ∃ row ∈ rows, row.id = id ∧ (∑ f ∈ rows.toFinset, f.cap) * picks.count row.id
      ≤ (∑ f ∈ rows.toFinset, picks.count f.id) * row.cap := by
  obtain ⟨row', hrow', rfl, -, -, hmax⟩ := hbest
  obtain ⟨row, hrow, rfl⟩ := List.mem_map.mp hrow'
  refine ⟨row, hrow, rfl, ?_⟩
  rw [totals_afterPicks h hmem] at hmax
  refine score_nonneg (w := fun row : PoolEnterprise => row.cap)
    (n := fun row : PoolEnterprise => picks.count row.id) (List.mem_toFinset.mpr hrow)
    (fun f hf => hle f (List.mem_toFinset.mp hf)) ?_
  intro f hf hbelow
  rw [List.mem_toFinset] at hf
  have hscore := hmax { f with inventory := f.inventory + picks.count f.id }
    (List.mem_map_of_mem hf) (h.eligible f hf) (by simpa [h.empty f hf] using hbelow)
  rw [sum_caps h.toValidEnterprises, sum_picks h.toValidEnterprises hmem]
  unfold rankWeight shareScore at hscore
  dsimp only at hscore
  split at hscore
  · rename_i hnone
    have hnil : picks = [] := List.length_eq_zero_iff.mp hnone
    simp [hnil]
  · simpa [h.empty f hf, h.empty row hrow] using hscore

/-- Every prefix of the plan is a fair apportionment. -/
theorem plan_fair (h : EmptyPool rows) (hmem : ∀ id ∈ plan, ∃ row ∈ rows, row.id = id)
    (hle : ∀ row ∈ rows, plan.count row.id ≤ row.cap)
    (hbest : ∀ i (hi : i < plan.length), BestPick (afterPicks rows (plan.take i)) plan[i])
    (hne : rows ≠ []) {i : Nat} (hi : i ≤ plan.length) :
    Fair rows.toFinset (fun row => row.cap) fun row => (plan.take i).count row.id := by
  induction i with
  | zero =>
      refine Fair.zero ?_ (by simp)
      obtain ⟨row, hrow⟩ := List.exists_mem_of_ne_nil rows hne
      exact Nat.lt_of_lt_of_le (h.positive row hrow)
        (single_le_sum (f := fun row : PoolEnterprise => row.cap) (fun _ _ => Nat.zero_le _)
          (by simpa using hrow))
  | succ i ih =>
      have hprefix : ∀ id ∈ plan.take i, ∃ row ∈ rows, row.id = id := fun id hid =>
        hmem id (List.mem_of_mem_take hid)
      obtain ⟨row, hrow, hid, hshare⟩ := BestPick.below_share h hprefix
        (fun row hrow => ((List.take_sublist i plan).count_le row.id).trans (hle row hrow))
        (hbest i hi)
      refine (ih (by omega)).seat (e := row) (by simpa using hrow) hshare (h.positive row hrow) ?_
      intro f hf
      rw [List.mem_toFinset] at hf
      rw [List.take_succ_eq_append_getElem hi, List.count_append, ← hid, List.count_singleton]
      have hiff : row.id == f.id ↔ f = row := by
        rw [beq_iff_eq]
        exact ⟨fun heq => h.ids.eq hf hrow heq.symm, fun heq => heq ▸ rfl⟩
      simp only [hiff]

theorem ValidEnterprises.card (h : ValidEnterprises rows) : rows.toFinset.card = rows.length :=
  List.toFinset_card_of_nodup h.nodup

/-- A plan for the whole capacity leaves no room. -/
theorem fills (h : EmptyPool rows) (hmem : ∀ id ∈ plan, ∃ row ∈ rows, row.id = id)
    (hle : ∀ row ∈ rows, plan.count row.id ≤ row.cap)
    (hlength : plan.length = (poolTotals rows).capacity) :
    ∀ row ∈ rows, plan.count row.id = row.cap := by
  have hsum : ∑ row ∈ rows.toFinset, plan.count row.id = ∑ row ∈ rows.toFinset, row.cap := by
    rw [sum_picks h.toValidEnterprises hmem, sum_caps h.toValidEnterprises, hlength]
  have hall := (sum_eq_sum_iff_of_le fun row hrow => hle row (List.mem_toFinset.mp hrow)).mp hsum
  intro row hrow
  exact hall row (List.mem_toFinset.mpr hrow)

/-- The bounds of a fair apportionment, read as quotas. -/
theorem quotas {s : Finset PoolEnterprise} {n : PoolEnterprise → Nat}
    (h : Fair s (fun row => row.cap) n) (hrow : row ∈ s) {seats capacity : Nat}
    (hseats : ∑ f ∈ s, n f = seats) (hcapacity : ∑ f ∈ s, f.cap = capacity)
    (hpos : 0 < capacity) :
    (n row : ℚ) < seats * row.cap / capacity + 1
    ∧ (2 ≤ s.card → (seats : ℚ) * row.cap / capacity - (s.card - 1) < n row) := by
  have hC : (0 : ℚ) < capacity := by exact_mod_cast hpos
  have hupper := h row hrow
  have hlower := (h.lower hrow).2
  rw [hseats, hcapacity] at hupper hlower
  refine ⟨?_, fun htwo => ?_⟩
  · rw [← sub_lt_iff_lt_add, lt_div_iff₀ hC]
    have hcast : (capacity * n row : ℚ) < seats * row.cap + capacity := by exact_mod_cast hupper
    linarith
  · have hcast : (seats * row.cap : ℚ) < capacity * n row + (s.card - 1 : Nat) * capacity := by
      exact_mod_cast hlower htwo
    rw [Nat.cast_sub (by omega), Nat.cast_one] at hcast
    rw [sub_lt_iff_lt_add, div_lt_iff₀ hC]
    linarith

/-- From an empty pool every prefix of the plan gives each enterprise less than one member above its
share; with two enterprises or more, none is as many below it as the others together could be above;
and the plan for the whole capacity fills every enterprise. -/
theorem share_fairness (h : EmptyPool rows) (ordinal : Nat) {deficit : Nat}
    (hdeficit : deficit ≤ (poolTotals rows).capacity) :
    ∃ plan, planCreations rows ordinal deficit = .ok plan ∧ plan.length = deficit
      ∧ (∀ N ≤ deficit, ∀ row ∈ rows,
          let share : ℚ := N * row.cap / (poolTotals rows).capacity
          ((plan.take N).count row.id : ℚ) < share + 1
          ∧ (2 ≤ rows.length → share - (rows.length - 1) < ((plan.take N).count row.id : ℚ))
          ∧ (rows.length = 1 → ((plan.take N).count row.id : ℚ) = share)
          ∧ (plan.take N).count row.id ≤ row.cap)
      ∧ (deficit = (poolTotals rows).capacity → ∀ row ∈ rows, plan.count row.id = row.cap) := by
  obtain ⟨plan, hplan, hlength, hpicks⟩ := planCreations_ok h.toValidEnterprises ordinal deficit
  rw [room_empty h, Nat.min_eq_left hdeficit] at hlength
  have hmem : ∀ id ∈ plan, ∃ row ∈ rows, row.id = id := fun id hid =>
    let ⟨row, hrow, heq, _⟩ := planCreations_mem hplan id hid
    ⟨row, hrow, heq⟩
  have hle : ∀ row ∈ rows, plan.count row.id ≤ row.cap := by
    intro row hrow
    by_cases hpicked : row.id ∈ plan
    · obtain ⟨row', hrow', heq, -, hcap⟩ := planCreations_mem hplan row.id hpicked
      obtain rfl := h.ids.eq hrow hrow' heq.symm
      omega
    · rw [List.count_eq_zero_of_not_mem hpicked]
      omega
  refine ⟨plan, hplan, hlength, ?_, fun heq => fills h hmem hle (hlength.trans heq)⟩
  intro N hN row hrow share
  have htake : ∀ id ∈ plan.take N, ∃ row ∈ rows, row.id = id := fun id hid =>
    hmem id (List.mem_of_mem_take hid)
  have hseats := sum_picks h.toValidEnterprises htake
  rw [List.length_take, hlength, Nat.min_eq_left hN] at hseats
  have hpos : 0 < (poolTotals rows).capacity := by
    rw [← sum_caps h.toValidEnterprises]
    exact Nat.lt_of_lt_of_le (h.positive row hrow)
      (single_le_sum (f := fun row : PoolEnterprise => row.cap) (fun _ _ => Nat.zero_le _)
        (List.mem_toFinset.mpr hrow))
  have hfair := plan_fair h hmem hle hpicks (List.ne_nil_of_mem hrow) (hlength.symm ▸ hN)
  obtain ⟨hupper, hlower⟩ := quotas hfair (List.mem_toFinset.mpr hrow) hseats
    (sum_caps h.toValidEnterprises) hpos
  rw [h.card] at hlower
  refine ⟨hupper, hlower, ?_, ((List.take_sublist N plan).count_le row.id).trans (hle row hrow)⟩
  intro hone
  obtain ⟨only, rfl⟩ := List.length_eq_one_iff.mp hone
  obtain rfl := List.mem_singleton.mp hrow
  have hcount : (plan.take N).count row.id = N := by simpa using hseats
  have hcap : (poolTotals [row]).capacity = row.cap := by simp [poolTotals]
  have hne : (row.cap : ℚ) ≠ 0 := by exact_mod_cast (h.positive row hrow).ne'
  show _ = (N * row.cap / (poolTotals [row]).capacity : ℚ)
  rw [hcount, hcap]
  field_simp

def lone : List PoolEnterprise := [{ id := "acme", cap := 2, inventory := 0, eligible := true }]

/-- A single enterprise gets every pick, so it is not above its share less nothing. -/
theorem share_fairness_lone :
    ∃ plan, planCreations lone 0 1 = .ok plan ∧
      ¬ ((1 * 2 / (poolTotals lone).capacity : ℚ) - (lone.length - 1)
        < ((plan.take 1).count "acme" : ℚ)) := by
  refine ⟨["acme"], by decide +kernel, ?_⟩
  have hcap : (poolTotals lone).capacity = 2 := rfl
  have hlength : lone.length = 1 := rfl
  rw [hcap, hlength]
  norm_num

def trio : List PoolEnterprise :=
  [{ id := "acme", cap := 3, inventory := 0, eligible := true },
    { id := "initech", cap := 1, inventory := 0, eligible := true },
    { id := "globex", cap := 2, inventory := 0, eligible := true }]

theorem trio_empty : EmptyPool trio := ⟨⟨by decide, by decide⟩, by decide, by decide, by decide⟩

theorem share_fairness_trio :
    ∃ plan, planCreations trio 4 6 = .ok plan ∧ ∀ row ∈ trio, plan.count row.id = row.cap :=
  let ⟨plan, hplan, _, _, hfull⟩ := share_fairness trio_empty 4 (show 6 ≤ _ by decide)
  ⟨plan, hplan, hfull rfl⟩

end Shares

end GhcpConsole.Pool
