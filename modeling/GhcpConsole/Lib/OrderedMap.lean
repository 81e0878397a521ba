import Mathlib.Data.List.Nodup

/-!
# Maps in the order of insertion

A map is the list of its entries. Setting a key that is there gives its entry the new value in place; a
key that is new comes last.
-/

namespace GhcpConsole

abbrev OrderedMap (κ β : Type) := List (κ × β)

namespace OrderedMap

variable {κ β : Type} [DecidableEq κ]

def get (m : OrderedMap κ β) (k : κ) : Option β := (m.find? (·.1 = k)).map (·.2)

def set (m : OrderedMap κ β) (k : κ) (v : β) : OrderedMap κ β :=
  if m.any (·.1 = k) then m.map fun entry => if entry.1 = k then (k, v) else entry
  else m ++ [(k, v)]

/-- `delete object[k]`. -/
def erase (m : OrderedMap κ β) (k : κ) : OrderedMap κ β := m.filter (·.1 ≠ k)

variable {m : OrderedMap κ β} {k k' : κ} {v : β}

theorem any_key : m.any (·.1 = k) = true ↔ k ∈ m.map (·.1) := by simp

theorem get_cons : get ((k, v) :: m) k' = if k' = k then some v else m.get k' := by
  unfold get
  split
  · rename_i h
    rw [List.find?_cons_of_pos (by simpa using h.symm), Option.map_some]
  · rename_i h
    rw [List.find?_cons_of_neg (by simpa using Ne.symm h)]

theorem get_eq_none : m.get k = none ↔ k ∉ m.map (·.1) := by
  rw [get, Option.map_eq_none_iff, List.find?_eq_none, ← any_key, List.any_eq_true, not_exists]
  simp only [not_and]

theorem get_mem (h : m.get k = some v) : (k, v) ∈ m := by
  obtain ⟨entry, hentry, rfl⟩ := Option.map_eq_some_iff.mp h
  have hkey : entry.1 = k := by simpa using List.find?_some hentry
  exact hkey ▸ List.mem_of_find?_eq_some hentry

theorem get_of_mem (distinct : (m.map (·.1)).Nodup) (mem : (k, v) ∈ m) : m.get k = some v := by
  induction m with
  | nil => cases mem
  | cons entry m ih =>
      obtain ⟨key, value⟩ := entry
      have parts : key ∉ m.map (·.1) ∧ (m.map (·.1)).Nodup := List.nodup_cons.mp distinct
      rw [get_cons]
      rcases List.mem_cons.mp mem with same | later
      · cases same
        rw [if_pos rfl]
      · have other : k ≠ key := fun same => parts.1 (List.mem_map.mpr ⟨(k, v), later, same⟩)
        rw [if_neg other]
        exact ih parts.2 later

/-- Setting a key to the value it has changes nothing. -/
theorem set_eq_self (distinct : (m.map (·.1)).Nodup) (mem : (k, v) ∈ m) : m.set k v = m := by
  have present : m.any (·.1 = k) = true := any_key.mpr (List.mem_map.mpr ⟨(k, v), mem, rfl⟩)
  rw [set, if_pos present]
  calc (m.map fun entry => if entry.1 = k then (k, v) else entry) = m.map id := by
        refine List.map_congr_left fun entry inMap => ?_
        obtain ⟨key, value⟩ := entry
        dsimp only
        split
        · rename_i isKey
          subst isKey
          have same := get_of_mem distinct mem
          rw [get_of_mem distinct inMap] at same
          rw [Option.some.inj same]
          rfl
        · rfl
    _ = m := List.map_id m

theorem set_of_not_mem (h : k ∉ m.map (·.1)) : m.set k v = m ++ [(k, v)] := by
  rw [set, if_neg fun hany => h (any_key.mp hany)]

theorem find?_map_set (hne : k' ≠ k) :
    (m.map fun entry => if entry.1 = k then (k, v) else entry).find? (·.1 = k')
      = m.find? (·.1 = k') := by
  induction m with
  | nil => rfl
  | cons entry m ih =>
      rw [List.map_cons]
      by_cases hk : entry.1 = k
      · rw [if_pos hk, List.find?_cons_of_neg (by simpa using hne.symm), ih,
          List.find?_cons_of_neg (by simpa [hk] using hne.symm)]
      · rw [if_neg hk]
        by_cases hk' : entry.1 = k'
        · rw [List.find?_cons_of_pos (by simpa using hk'), List.find?_cons_of_pos (by simpa using hk')]
        · rw [List.find?_cons_of_neg (by simpa using hk'), ih,
            List.find?_cons_of_neg (by simpa using hk')]

theorem get_set_ne (hne : k' ≠ k) : (m.set k v).get k' = m.get k' := by
  unfold set get
  split
  · rw [find?_map_set hne]
  · rw [List.find?_append, List.find?_cons_of_neg (by simpa using hne.symm), List.find?_nil,
      Option.or_none]

theorem get_set_self : (m.set k v).get k = some v := by
  unfold set get
  split
  · rename_i hany
    induction m with
    | nil => cases hany
    | cons entry m ih =>
        rw [List.map_cons]
        by_cases hk : entry.1 = k
        · rw [if_pos hk, List.find?_cons_of_pos (by simp), Option.map_some]
        · rw [if_neg hk, List.find?_cons_of_neg (by simpa using hk)]
          rw [List.any_cons, decide_eq_false hk, Bool.false_or] at hany
          exact ih hany
  · rename_i hnone
    rw [List.find?_append, List.find?_eq_none.mpr, Option.none_or,
      List.find?_cons_of_pos (by simp), Option.map_some]
    intro entry hentry hkey
    exact hnone (List.any_eq_true.mpr ⟨entry, hentry, hkey⟩)

theorem get_set : (m.set k v).get k' = if k' = k then some v else m.get k' := by
  split
  · rename_i h
    rw [h, get_set_self]
  · rename_i h
    exact get_set_ne h

theorem get_erase_ne (hne : k' ≠ k) : (m.erase k).get k' = m.get k' := by
  have hsame : (fun entry : κ × β => decide (decide (entry.1 ≠ k) = true ∧ decide (entry.1 = k') = true))
      = fun entry => decide (entry.1 = k') := by
    funext entry
    by_cases hk : entry.1 = k'
    · simp [hk, hne]
    · simp [hk]
  rw [get, erase, List.find?_filter, hsame, get]

theorem get_erase_self : (m.erase k).get k = none := by
  rw [get_eq_none, erase]
  simp

theorem mem_set {entry : κ × β} (h : entry ∈ m.set k v) : entry = (k, v) ∨ entry ∈ m := by
  unfold set at h
  split at h
  · obtain ⟨before, hmem, rfl⟩ := List.mem_map.mp h
    split
    · exact Or.inl rfl
    · exact Or.inr hmem
  · rcases List.mem_append.mp h with hmem | hmem
    · exact Or.inr hmem
    · exact Or.inl (List.mem_singleton.mp hmem)

theorem mem_erase {entry : κ × β} (h : entry ∈ m.erase k) : entry ∈ m := (List.mem_filter.mp h).1

end OrderedMap

end GhcpConsole
