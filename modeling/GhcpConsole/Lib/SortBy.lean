import Mathlib.Data.List.Sort
import Mathlib.Data.Prod.Lex

/-!
# Sorting by a key

A comparator that chains comparisons compares lexicographic keys. Where the keys tell the entries of
a list apart, sorting does not see the order the list came in, and the first entry has the least key.
-/

namespace GhcpConsole

theorem then_ne_gt {o o' : Ordering} : o.then o' ≠ .gt ↔ o = .lt ∨ o = .eq ∧ o' ≠ .gt := by
  cases o <;> simp

section SortBy

variable {α κ : Type} [LinearOrder κ] {r : α → α → Prop} [DecidableRel r] {key : α → κ}
  {l l' : List α}

theorem pairwise_insertionSort_key (hr : ∀ a b, r a b ↔ key a ≤ key b) (l : List α) :
    (l.insertionSort r).Pairwise r := by
  have : Std.Total r := ⟨fun a b => by
    rw [hr, hr]
    exact le_total (key a) (key b)⟩
  have : IsTrans α r := ⟨fun a b c hab hbc => by
    rw [hr] at *
    exact le_trans hab hbc⟩
  exact List.pairwise_insertionSort r l

theorem insertionSort_perm_eq (hr : ∀ a b, r a b ↔ key a ≤ key b)
    (hinj : ∀ a ∈ l, ∀ b ∈ l, key a = key b → a = b) (hperm : l.Perm l') :
    l.insertionSort r = l'.insertionSort r := by
  refine List.Perm.eq_of_pairwise ?_ (pairwise_insertionSort_key hr l)
    (pairwise_insertionSort_key hr l')
    ((List.perm_insertionSort r l).trans (hperm.trans (List.perm_insertionSort r l').symm))
  intro a b ha hb hab hba
  refine hinj a ((List.mem_insertionSort r).mp ha) b ?_ (le_antisymm ((hr a b).mp hab) ((hr b a).mp hba))
  exact hperm.mem_iff.mpr ((List.mem_insertionSort r).mp hb)

theorem insertionSort_head (hr : ∀ a b, r a b ↔ key a ≤ key b) {a : α} {rest : List α}
    (h : l.insertionSort r = a :: rest) : a ∈ l ∧ ∀ b ∈ l, key a ≤ key b := by
  have hmem : ∀ b, b ∈ l ↔ b ∈ a :: rest := fun b => by rw [← h, List.mem_insertionSort]
  have hpairs := pairwise_insertionSort_key hr l
  rw [h, List.pairwise_cons] at hpairs
  refine ⟨(hmem a).mpr (List.mem_cons_self ..), ?_⟩
  intro b hb
  rcases List.mem_cons.mp ((hmem b).mp hb) with rfl | hrest
  · exact le_refl _
  · exact (hr a b).mp (hpairs.1 b hrest)

end SortBy

end GhcpConsole
