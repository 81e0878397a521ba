import Mathlib.Algebra.BigOperators.Ring.Finset
import Mathlib.Algebra.Order.BigOperators.Group.Finset
import Mathlib.Tactic.Linarith
import Mathlib.Tactic.Ring

/-!
# Greedy apportionment

Seats are given one at a time to parties of the set `s`, which have weights `w`; `n` says how many
each has. A party's score is how far its seats fall short of its share of the seats given. Scores add
up to zero, so a party of the largest score among those below their weight has one of at least zero;
and giving each seat to such a party keeps every party less than one seat above its share.
-/

namespace GhcpConsole

open Finset

section Apportionment

variable {ι : Type} {s : Finset ι} {w n n' : ι → Nat} {e : ι}

/-- No party is a whole seat above its share. -/
def Fair (s : Finset ι) (w n : ι → Nat) : Prop :=
  ∀ e ∈ s, (∑ f ∈ s, w f) * n e < (∑ f ∈ s, n f) * w e + ∑ f ∈ s, w f

theorem Fair.zero (hw : 0 < ∑ f ∈ s, w f) (hn : ∀ f ∈ s, n f = 0) : Fair s w n := by
  intro e he
  rw [hn e he, sum_eq_zero hn]
  omega

/-- A party of the largest score among those below their weight is not above its share. -/
theorem score_nonneg (he : e ∈ s) (hle : ∀ f ∈ s, n f ≤ w f)
    (hbest : ∀ f ∈ s, n f < w f →
      ((∑ g ∈ s, n g : Nat) : Int) * w f - (∑ g ∈ s, w g : Nat) * n f
        ≤ ((∑ g ∈ s, n g : Nat) : Int) * w e - (∑ g ∈ s, w g : Nat) * n e) :
    (∑ f ∈ s, w f) * n e ≤ (∑ f ∈ s, n f) * w e := by
  by_contra hneg
  rw [Nat.not_le] at hneg
  have htotal : ∑ f ∈ s, n f ≤ ∑ f ∈ s, w f := sum_le_sum hle
  have hzero : ∑ f ∈ s, (((∑ g ∈ s, n g : Nat) : Int) * w f - (∑ g ∈ s, w g : Nat) * n f) = 0 := by
    rw [sum_sub_distrib, ← mul_sum, ← mul_sum, ← Nat.cast_sum, ← Nat.cast_sum]
    ring
  generalize ∑ f ∈ s, n f = N at *
  generalize ∑ f ∈ s, w f = W at *
  have hscore : ((N : Int) * w e - W * n e) < 0 := by
    have : ((N * w e : Nat) : Int) < (W * n e : Nat) := by exact_mod_cast hneg
    push_cast at this
    omega
  refine absurd hzero (ne_of_lt (sum_neg' ?_ ⟨e, he, hscore⟩))
  intro f hf
  by_cases hbelow : n f < w f
  · exact (hbest f hf hbelow).trans hscore.le
  · -- A party with all its seats has more than its share.
    have hfull : n f = w f := Nat.le_antisymm (hle f hf) (Nat.not_lt.mp hbelow)
    have hmul : N * w f ≤ W * w f := Nat.mul_le_mul_right _ htotal
    rw [hfull]
    have : ((N * w f : Nat) : Int) ≤ (W * w f : Nat) := by exact_mod_cast hmul
    push_cast at this
    omega

variable [DecidableEq ι]

theorem sum_seat (he : e ∈ s) (hn : ∀ f ∈ s, n' f = n f + if f = e then 1 else 0) :
    ∑ f ∈ s, n' f = ∑ f ∈ s, n f + 1 := by
  rw [sum_congr rfl hn, sum_add_distrib, sum_ite_eq' s e, if_pos he]

/-- A seat for a party that is not above its share. -/
theorem Fair.seat (h : Fair s w n) (he : e ∈ s)
    (hscore : (∑ f ∈ s, w f) * n e ≤ (∑ f ∈ s, n f) * w e) (hw : 0 < w e)
    (hn : ∀ f ∈ s, n' f = n f + if f = e then 1 else 0) : Fair s w n' := by
  intro f hf
  have hf' := h f hf
  have hseat := hn f hf
  rw [sum_seat he hn, Nat.add_mul]
  by_cases heq : f = e
  · subst heq
    rw [if_pos rfl] at hseat
    rw [hseat, Nat.mul_add]
    omega
  · rw [if_neg heq] at hseat
    rw [show n' f = n f from hseat]
    omega

/-- What the others have at most is what a party has at least. -/
theorem Fair.lower (h : Fair s w n) (he : e ∈ s) :
    (∑ f ∈ s, n f) * w e ≤ (∑ f ∈ s, w f) * n e + (s.card - 1) * ∑ f ∈ s, w f
    ∧ (2 ≤ s.card → (∑ f ∈ s, n f) * w e < (∑ f ∈ s, w f) * n e + (s.card - 1) * ∑ f ∈ s, w f) := by
  have hothers : ∑ f ∈ s.erase e, (∑ g ∈ s, w g) * n f
      ≤ ∑ f ∈ s.erase e, ((∑ g ∈ s, n g) * w f + ∑ g ∈ s, w g) :=
    sum_le_sum fun f hf => (h f (mem_of_mem_erase hf)).le
  have hstrict : 2 ≤ s.card → ∑ f ∈ s.erase e, (∑ g ∈ s, w g) * n f
      < ∑ f ∈ s.erase e, ((∑ g ∈ s, n g) * w f + ∑ g ∈ s, w g) := by
    intro htwo
    refine sum_lt_sum_of_nonempty ?_ fun f hf => h f (mem_of_mem_erase hf)
    rw [← card_pos, card_erase_of_mem he]
    omega
  rw [sum_add_distrib, ← mul_sum, ← mul_sum, sum_const, nsmul_eq_mul, Nat.cast_id,
    card_erase_of_mem he] at hothers hstrict
  have hn := add_sum_erase s n he
  have hw := add_sum_erase s w he
  generalize hN : ∑ f ∈ s, n f = N at *
  generalize hW : ∑ f ∈ s, w f = W at *
  generalize ∑ f ∈ s.erase e, n f = restN at *
  generalize ∑ f ∈ s.erase e, w f = restW at *
  have hWN : W * N = W * n e + W * restN := by rw [← hn, Nat.mul_add]
  have hNW : N * W = N * w e + N * restW := by rw [← hw, Nat.mul_add]
  have hcomm : W * N = N * W := Nat.mul_comm W N
  refine ⟨by omega, fun htwo => ?_⟩
  have hlt := hstrict htwo
  omega

end Apportionment

end GhcpConsole
