import Mathlib.Order.BooleanAlgebra.Basic
import GhcpConsole.Lib.SortBy

/-!
# Taking turns

Keys are visited in the order of the keys, from a cursor on and around. The cursor goes to each key that
is visited, so that the next sweep begins where the last one ended (`rotation_after`), and sweeps that
together are as long as there are keys have visited them all (`Sweeps.covers`). The cursor need not be
one of the keys.
-/

namespace GhcpConsole

variable {α : Type} [LinearOrder α] {keys before after : List α} {c v : α}

/-- `ORDER BY key<=cursor, key`. -/
def rotation (cursor : α) (keys : List α) : List α :=
  keys.insertionSort fun x y => toLex (decide (x ≤ cursor), x) ≤ toLex (decide (y ≤ cursor), y)

section Order

theorem rotation_perm (cursor : α) (keys : List α) : (rotation cursor keys).Perm keys :=
  List.perm_insertionSort _ _

/-- The order of the keys is that of their set. -/
theorem rotation_congr {keys' : List α} (cursor : α) (perm : keys.Perm keys') :
    rotation cursor keys = rotation cursor keys' := by
  have key : ∀ x y : α, toLex (decide (x ≤ cursor), x) ≤ toLex (decide (y ≤ cursor), y)
      ↔ toLex (decide (x ≤ cursor), x) ≤ toLex (decide (y ≤ cursor), y) := fun _ _ => Iff.rfl
  exact insertionSort_perm_eq key (fun x _ y _ same => congrArg (fun k => (ofLex k).2) same) perm

/-- Ascending keys behind the cursor, and after them ascending keys up to the cursor. -/
theorem rotation_eq (hafter : ∀ x ∈ after, c < x) (hbefore : ∀ x ∈ before, x ≤ c)
    (sortedAfter : after.Pairwise (· ≤ ·)) (sortedBefore : before.Pairwise (· ≤ ·))
    (perm : keys.Perm (after ++ before)) : rotation c keys = after ++ before := by
  have key : ∀ x y : α, toLex (decide (x ≤ c), x) ≤ toLex (decide (y ≤ c), y)
      ↔ toLex (decide (x ≤ c), x) ≤ toLex (decide (y ≤ c), y) := fun _ _ => Iff.rfl
  refine List.Perm.eq_of_pairwise ?_ (pairwise_insertionSort_key key keys) ?_
    ((rotation_perm c keys).trans perm)
  · intro x y _ _ hxy hyx
    exact congrArg (fun k => (ofLex k).2) (le_antisymm hxy hyx)
  · refine List.pairwise_append.mpr ⟨?_, ?_, ?_⟩
    · refine sortedAfter.imp_of_mem fun {x y} hx hy hxy => ?_
      rw [Prod.Lex.toLex_le_toLex, decide_eq_false (not_le.mpr (hafter x hx)),
        decide_eq_false (not_le.mpr (hafter y hy))]
      exact .inr ⟨rfl, hxy⟩
    · refine sortedBefore.imp_of_mem fun {x y} hx hy hxy => ?_
      rw [Prod.Lex.toLex_le_toLex, decide_eq_true (hbefore x hx), decide_eq_true (hbefore y hy)]
      exact .inr ⟨rfl, hxy⟩
    · intro x hx y hy
      rw [Prod.Lex.toLex_le_toLex, decide_eq_false (not_le.mpr (hafter x hx)),
        decide_eq_true (hbefore y hy)]
      exact .inl Bool.false_lt_true

theorem exists_rotation (c : α) (keys : List α) : ∃ after before, rotation c keys = after ++ before
    ∧ (∀ x ∈ after, c < x) ∧ (∀ x ∈ before, x ≤ c) ∧ after.Pairwise (· ≤ ·)
    ∧ before.Pairwise (· ≤ ·) := by
  have sorted : (keys.insertionSort (· ≤ ·)).Pairwise (· ≤ ·) := List.pairwise_insertionSort _ _
  have sortedAfter := sorted.filter (fun x => decide (c < x))
  have sortedBefore := sorted.filter (fun x => decide (x ≤ c))
  have hafter : ∀ x ∈ (keys.insertionSort (· ≤ ·)).filter fun x => decide (c < x), c < x :=
    fun x mem => by simpa using (List.mem_filter.mp mem).2
  have hbefore : ∀ x ∈ (keys.insertionSort (· ≤ ·)).filter fun x => decide (x ≤ c), x ≤ c :=
    fun x mem => by simpa using (List.mem_filter.mp mem).2
  have parts : (fun x : α => decide (x ≤ c)) = fun x => !decide (c < x) := by
    funext x
    by_cases h : c < x
    · rw [decide_eq_true h, decide_eq_false (not_le.mpr h), Bool.not_true]
    · rw [decide_eq_false h, decide_eq_true (not_lt.mp h), Bool.not_false]
  refine ⟨_, _, rotation_eq hafter hbefore sortedAfter sortedBefore ?_, hafter, hbefore, sortedAfter,
    sortedBefore⟩
  rw [parts]
  exact (List.perm_insertionSort _ keys).symm.trans (List.filter_append_perm _ _).symm

/-- From a key on, the order begins after it and ends with it. -/
theorem rotation_next (distinct : keys.Nodup) (h : rotation c keys = before ++ v :: after) :
    rotation v keys = after ++ (before ++ [v]) := by
  obtain ⟨above, upTo, split, habove, hupTo, sortedAbove, sortedUpTo⟩ := exists_rotation c keys
  have perm : keys.Perm (above ++ upTo) := split ▸ (rotation_perm c keys).symm
  have distinctParts := perm.nodup distinct
  have strictAbove : above.Pairwise (· < ·) :=
    sortedAbove.imp₂ (fun _ _ le ne => lt_of_le_of_ne le ne) (List.nodup_append.mp distinctParts).1
  have strictUpTo : upTo.Pairwise (· < ·) :=
    sortedUpTo.imp₂ (fun _ _ le ne => lt_of_le_of_ne le ne) (List.nodup_append.mp distinctParts).2.1
  have comesAround : ∀ part, before = above ++ part → upTo = part ++ v :: after →
      rotation v keys = after ++ (before ++ [v]) := by
    rintro part rfl rfl
    have hv : v ≤ c := hupTo v (by simp)
    obtain ⟨_, later, lower⟩ := List.pairwise_append.mp strictUpTo
    have turned : rotation v keys = (after ++ above) ++ (part ++ [v]) := by
      refine rotation_eq ?_ ?_ ?_ ?_ ?_
      · intro x mem
        rcases List.mem_append.mp mem with inAfter | inAbove
        · exact (List.pairwise_cons.mp later).1 x inAfter
        · exact lt_of_le_of_lt hv (habove x inAbove)
      · intro x mem
        rcases List.mem_append.mp mem with inPart | isKey
        · exact (lower x inPart v List.mem_cons_self).le
        · exact (List.mem_singleton.mp isKey).le
      · refine List.pairwise_append.mpr ⟨?_, sortedAbove, fun x hx y hy => ?_⟩
        · exact (List.pairwise_cons.mp (List.pairwise_append.mp sortedUpTo).2.1).2
        · exact (lt_of_le_of_lt (hupTo x (by simp [hx])) (habove y hy)).le
      · refine List.pairwise_append.mpr
          ⟨(List.pairwise_append.mp sortedUpTo).1, List.pairwise_singleton _ _, fun x hx y hy => ?_⟩
        rw [List.mem_singleton.mp hy]
        exact (lower x hx v List.mem_cons_self).le
      · refine perm.trans (List.perm_iff_count.mpr fun x => ?_)
        simp only [List.count_append, List.count_cons, List.count_nil]
        omega
    rw [turned, List.append_assoc, List.append_assoc]
  rw [split] at h
  rcases List.append_eq_append_iff.mp h with ⟨part, front, back⟩ | ⟨part, front, back⟩
  · exact comesAround part front back
  · cases part with
    | nil => exact comesAround [] (by rw [front, List.append_nil, List.append_nil]) back.symm
    | cons w part =>
        obtain ⟨rfl, rfl⟩ := List.cons.inj back
        subst front
        obtain ⟨_, later, lower⟩ := List.pairwise_append.mp strictAbove
        have hv : c < v := habove v (by simp)
        have turned : rotation v keys = part ++ (upTo ++ (before ++ [v])) := by
          refine rotation_eq ?_ ?_ ?_ ?_ ?_
          · exact (List.pairwise_cons.mp later).1
          · intro x mem
            simp only [List.mem_append, List.mem_singleton] at mem
            rcases mem with inUpTo | inBefore | isKey
            · exact (lt_of_le_of_lt (hupTo x inUpTo) hv).le
            · exact (lower x inBefore v List.mem_cons_self).le
            · exact isKey.le
          · exact (List.pairwise_cons.mp (List.pairwise_append.mp sortedAbove).2.1).2
          · refine List.pairwise_append.mpr ⟨sortedUpTo, ?_, fun x hx y hy => ?_⟩
            · refine List.pairwise_append.mpr
                ⟨(List.pairwise_append.mp sortedAbove).1, List.pairwise_singleton _ _, fun x hx y hy => ?_⟩
              rw [List.mem_singleton.mp hy]
              exact (lower x hx v List.mem_cons_self).le
            · rcases List.mem_append.mp hy with inBefore | isKey
              · exact (lt_of_le_of_lt (hupTo x hx) (habove y (by simp [inBefore]))).le
              · rw [List.mem_singleton.mp isKey]
                exact (lt_of_le_of_lt (hupTo x hx) hv).le
          · refine perm.trans (List.perm_iff_count.mpr fun x => ?_)
            simp only [List.count_append, List.count_cons, List.count_nil]
            omega
        exact turned.trans (List.append_assoc _ _ _).symm

theorem rotation_after {visited rest : List α} (distinct : keys.Nodup)
    (h : rotation c keys = visited ++ rest) :
    rotation (visited.getLastD c) keys = rest ++ visited := by
  rcases List.eq_nil_or_concat visited with rfl | ⟨before, v, rfl⟩
  · rw [List.append_nil]
    exact h
  · rw [List.concat_eq_append] at h ⊢
    rw [List.append_assoc, List.singleton_append] at h
    rw [List.getLastD_concat]
    exact rotation_next distinct h

end Order

/-- Sweeps one after the other, each from the cursor on as far as it gets. -/
inductive Sweeps (keys : List α) : α → List (List α) → Prop
  | done (c : α) : Sweeps keys c []
  | sweep (c : α) (visited : List α) (visits : List (List α)) (front : visited <+: rotation c keys)
      (later : Sweeps keys (visited.getLastD c) visits) : Sweeps keys c (visited :: visits)

section Sweeps

variable {visits : List (List α)} {limit : Nat} {key : α}

/-- The sweeps that are as long as they can be. -/
def wholeSweeps (limit : Nat) (keys : List α) (visits : List (List α)) : Nat :=
  visits.countP fun visited => visited.length = min limit keys.length

/-- What the sweeps have not come to yet stays at the front. -/
theorem Sweeps.covers_front (sweeps : Sweeps keys c visits) (distinct : keys.Nodup) :
    ∀ rest seen, rotation c keys = rest ++ seen → rest.length ≤ limit * wholeSweeps limit keys visits →
      key ∈ rest → ∃ visited ∈ visits, key ∈ visited := by
  induction sweeps with
  | done c =>
      intro rest seen _ enough mem
      rw [wholeSweeps, List.countP_nil, Nat.mul_zero] at enough
      rw [List.length_eq_zero_iff.mp (Nat.le_zero.mp enough)] at mem
      cases mem
  | sweep c visited visits front later ih =>
      intro rest seen order enough mem
      rw [order] at front
      by_cases long : rest.length ≤ visited.length
      · have all : rest <+: visited :=
          List.prefix_of_prefix_length_le (List.prefix_append rest seen) front long
        exact ⟨visited, List.mem_cons_self, all.subset mem⟩
      · have part : visited <+: rest :=
          List.prefix_of_prefix_length_le front (List.prefix_append rest seen) (by omega)
        obtain ⟨rest, rfl⟩ := part
        rcases List.mem_append.mp mem with here | still
        · exact ⟨visited, List.mem_cons_self, here⟩
        · have next := rotation_after distinct (order.trans (List.append_assoc _ _ _))
          rw [List.append_assoc] at next
          have bound : (visited ++ rest).length ≤ keys.length := by
            rw [← (rotation_perm c keys).length_eq, order]
            exact (List.prefix_append _ seen).length_le
          have fewer : rest.length ≤ limit * wholeSweeps limit keys visits := by
            rw [wholeSweeps, List.countP_cons] at enough
            rw [List.length_append] at enough long bound
            split at enough
            · rename_i whole
              rw [decide_eq_true_eq] at whole
              rw [Nat.mul_add, Nat.mul_one] at enough
              rw [wholeSweeps]
              omega
            · rw [Nat.add_zero] at enough
              rw [wholeSweeps]
              omega
          obtain ⟨sweep, inVisits, found⟩ := ih rest (seen ++ visited) next fewer still
          exact ⟨sweep, List.mem_cons_of_mem _ inVisits, found⟩

theorem Sweeps.covers (sweeps : Sweeps keys c visits) (distinct : keys.Nodup)
    (enough : keys.length ≤ limit * wholeSweeps limit keys visits) (mem : key ∈ keys) :
    ∃ visited ∈ visits, key ∈ visited := by
  rw [← (rotation_perm c keys).length_eq] at enough
  exact sweeps.covers_front distinct (rotation c keys) [] (List.append_nil _).symm enough
    ((rotation_perm c keys).mem_iff.mpr mem)

end Sweeps

end GhcpConsole
