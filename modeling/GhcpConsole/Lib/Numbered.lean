import Mathlib.Data.List.Nodup

/-!
# Numbered lists

A list that only grows at its end names its entries by their place: what an entry is may change, its
number and the numbers of the others stay. Threads of a process are kept so.
-/

namespace GhcpConsole

section Numbered

variable {α β : Type} {l : List α} {f : α → α} {a b : α} {i j : Nat}

theorem getElem?_concat : (l ++ [a])[i]? = some b ↔ l[i]? = some b ∨ (i = l.length ∧ a = b) := by
  rcases Nat.lt_trichotomy i l.length with hlt | rfl | hgt
  · have hne : i ≠ l.length := by omega
    simp [List.getElem?_append_left hlt, hne]
  · simp
  · have hne : i ≠ l.length := by omega
    have hout : (l ++ [a])[i]? = none := List.getElem?_eq_none (by simp; omega)
    have hold : l[i]? = none := List.getElem?_eq_none (by omega)
    simp [hout, hold, hne]

theorem getElem?_modify_some :
    (l.modify j f)[i]? = some b ↔ ∃ a, l[i]? = some a ∧ b = if j = i then f a else a := by
  rw [List.getElem?_modify]
  cases l[i]? with
  | none => simp
  | some a => simp [eq_comm]

theorem modify_concat : (l ++ [a]).modify l.length f = l ++ [f a] := by
  induction l with
  | nil => rfl
  | cons b l ih => simp [ih]

/-- What the change of one entry leaves of a count. -/
theorem countP_modify {p : α → Bool} (h : l[j]? = some a) :
    (l.modify j f).countP p + (if p a then 1 else 0) = l.countP p + if p (f a) then 1 else 0 := by
  induction l generalizing j with
  | nil => simp at h
  | cons b l ih =>
      cases j with
      | zero =>
          obtain rfl : b = a := by simpa using h
          simp only [List.modify_zero_cons, List.countP_cons]
          omega
      | succ j =>
          have hrest := ih (j := j) (by simpa using h)
          simp only [List.modify_succ_cons, List.countP_cons]
          omega

theorem map_modify_same {g : α → β} (hf : ∀ a, g (f a) = g a) : (l.modify j f).map g = l.map g := by
  induction l generalizing j with
  | nil => simp
  | cons b l ih => cases j <;> simp [hf, ih]

end Numbered

end GhcpConsole
