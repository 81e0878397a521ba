import GhcpConsole.Lib.Deciding
import Mathlib.Data.List.Basic

/-!
# Texts of a fixed form

A pattern gives for each character of a text the character it has to be, or says that it is a digit.
-/

namespace GhcpConsole

section Pattern

variable {p q : List (Option Char)} {l : List Char} {a b : Char}

/-- The text has the form of the pattern; `none` stands for a digit. -/
def fits : List (Option Char) → List Char → Bool
  | [], [] => true
  | some c :: p, x :: l => x == c && fits p l
  | none :: p, x :: l => x.isDigit && fits p l
  | _, _ => false

section
-- Generates the equations here, once for all the proofs below.
attribute [local simp] fits
end

theorem fits_length (h : fits p l = true) : l.length = p.length := by
  induction p generalizing l with
  | nil => cases l <;> simp_all [fits]
  | cons c p ih =>
      cases l with
      | nil => cases c <;> simp [fits] at h
      | cons x l =>
          cases c <;> simp only [fits, Bool.and_eq_true] at h <;> simp [ih h.2]

theorem fits_append : fits (p ++ q) l = true ↔
    ∃ u v, l = u ++ v ∧ fits p u = true ∧ fits q v = true := by
  induction p generalizing l with
  | nil =>
      refine ⟨fun h => ⟨[], l, rfl, rfl, h⟩, ?_⟩
      rintro ⟨u, v, rfl, hu, hv⟩
      cases u with
      | nil => exact hv
      | cons => simp [fits] at hu
  | cons c p ih =>
      constructor
      · intro h
        cases l with
        | nil => cases c <;> simp [fits] at h
        | cons x l =>
            rw [List.cons_append] at h
            cases c <;> simp only [fits, Bool.and_eq_true] at h <;>
              obtain ⟨hx, u, v, rfl, hu, hv⟩ := And.imp_right ih.mp h <;>
              exact ⟨x :: u, v, rfl, by simp [fits, hx, hu], hv⟩
      · rintro ⟨u, v, rfl, hu, hv⟩
        cases u with
        | nil => cases c <;> simp [fits] at hu
        | cons x u =>
            rw [List.cons_append, List.cons_append]
            cases c <;> simp only [fits, Bool.and_eq_true] at hu ⊢ <;>
              exact ⟨hu.1, ih.mpr ⟨u, v, rfl, hu.2, hv⟩⟩

theorem fits_singleton {c : Char} : fits [some c] l = true ↔ l = [c] := by
  cases l with
  | nil => simp [fits]
  | cons x l => cases l <;> simp [fits]

/-- A character that is no digit and not in the pattern is not in the text. -/
theorem fits_not_mem (h : fits p l = true) (hdigit : a.isDigit = false) (hp : some a ∉ p) : a ∉ l := by
  induction p generalizing l with
  | nil =>
      cases l with
      | nil => simp
      | cons => simp [fits] at h
  | cons c p ih =>
      cases l with
      | nil => simp
      | cons x l =>
          rw [List.mem_cons, not_or] at hp ⊢
          cases c with
          | none =>
              simp only [fits, Bool.and_eq_true] at h
              refine ⟨?_, ih h.2 hp.2⟩
              rintro rfl
              rw [hdigit] at h
              cases h.1
          | some c =>
              simp only [fits, Bool.and_eq_true, beq_iff_eq] at h
              refine ⟨?_, ih h.2 hp.2⟩
              rintro rfl
              exact hp.1 (congrArg some h.1)

/-- `text.replace(a, b)`: the first occurrence. -/
def replaceFirst (a b : Char) : List Char → List Char
  | [] => []
  | c :: l => if c = a then b :: l else c :: replaceFirst a b l

theorem replaceFirst_append {u v : List Char} (h : a ∉ u) :
    replaceFirst a b (u ++ a :: v) = u ++ b :: v := by
  induction u with
  | nil => simp [replaceFirst]
  | cons c u ih =>
      rw [List.mem_cons, not_or] at h
      rw [List.cons_append, replaceFirst, if_neg (Ne.symm h.1), ih h.2, List.cons_append]

end Pattern

end GhcpConsole
