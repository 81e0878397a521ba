import Mathlib.Data.List.Basic

/-!
# Fixed windows

A limiter that admits `limit` uses in a window. A window opens with the first use that finds the
one before it closed or finds none, and stays open for `span`; the start `0` says that there has
been none. A use past the limit is refused and does not move the window.

The log of a sequence of uses tells, for each, the window it fell in and whether it was admitted.
The starts along a log never fall, and two windows that follow each other are `span` apart, so
what the limiter admits under one start it admits inside one window.
-/

namespace GhcpConsole

/-- The state of the limiter: when its window has opened, and what it has admitted since. -/
structure FixedWindow where
  start : Nat
  count : Nat
deriving DecidableEq, Repr

/-- A use: its time, the start of its window, and whether it was admitted. -/
@[ext]
structure WindowUse where
  at_ : Nat
  window : Nat
  admitted : Bool
deriving DecidableEq, Repr

namespace FixedWindow

section
variable (limit span : Nat)

/-- The window a use at `t` falls in. -/
def current (w : FixedWindow) (t : Nat) : FixedWindow :=
  if w.start = 0 ∨ span ≤ t - w.start then ⟨t, 0⟩ else w

/-- A use at `t`. -/
def use (w : FixedWindow) (t : Nat) : WindowUse × FixedWindow :=
  let v := w.current span t
  if limit ≤ v.count then (⟨t, v.start, false⟩, v)
  else (⟨t, v.start, true⟩, { v with count := v.count + 1 })

/-- The uses at the times of a list. -/
def log (w : FixedWindow) : List Nat → List WindowUse
  | [] => []
  | t :: ts => (w.use limit span t).1 :: log (w.use limit span t).2 ts

end

variable {limit span : Nat} {w : FixedWindow} {t : Nat}

/-! ## One use -/

section
-- Generates the equations here, once for all the proofs below.
attribute [local simp] current use log
end

theorem use_window (w : FixedWindow) (t : Nat) :
    (w.use limit span t).1.window = (w.use limit span t).2.start := by
  simp only [use]
  split <;> rfl

theorem use_at (w : FixedWindow) (t : Nat) : (w.use limit span t).1.at_ = t := by
  simp only [use]
  split <;> rfl

/-- The window of a use is the one before it, or the use opens it and that one is closed. -/
theorem use_start (limit span : Nat) (w : FixedWindow) (t : Nat) :
    ((w.use limit span t).2.start = w.start ∧ w.start ≠ 0 ∧ t - w.start < span)
    ∨ ((w.use limit span t).2.start = t ∧ (w.start = 0 ∨ span ≤ t - w.start)) := by
  have hstart : (w.use limit span t).2.start = (w.current span t).start := by
    simp only [use]
    split <;> rfl
  rw [hstart, current]
  by_cases hclosed : w.start = 0 ∨ span ≤ t - w.start
  · rw [if_pos hclosed]
    exact .inr ⟨rfl, hclosed⟩
  · rw [if_neg hclosed]
    rw [not_or] at hclosed
    exact .inl ⟨rfl, hclosed.1, Nat.lt_of_not_le hclosed.2⟩

/-- A use ends before its window closes. -/
theorem use_at_lt (hspan : 0 < span) (w : FixedWindow) (t : Nat) :
    (w.use limit span t).1.at_ < (w.use limit span t).1.window + span := by
  rw [use_window, use_at]
  rcases use_start limit span w t with ⟨hstart, -, hlt⟩ | ⟨hstart, -⟩ <;> rw [hstart] <;> omega

/-- No start falls, and a new one is `span` past the old. -/
theorem use_start_le (hspan : 0 < span) (w : FixedWindow) (t : Nat) :
    w.start = (w.use limit span t).2.start
      ∨ w.start = 0 ∨ w.start + span ≤ (w.use limit span t).2.start := by
  rcases use_start limit span w t with ⟨hstart, -, -⟩ | ⟨hstart, hclosed⟩
  · exact .inl hstart.symm
  · rw [hstart]
    omega

/-! ## Logs -/

theorem at_lt_of_mem_log (hspan : 0 < span) {w : FixedWindow} {ts : List Nat} {u : WindowUse}
    (hu : u ∈ w.log limit span ts) : u.at_ < u.window + span := by
  induction ts generalizing w with
  | nil => cases hu
  | cons t ts ih =>
      rcases List.mem_cons.mp hu with rfl | hu
      · exact use_at_lt hspan w t
      · exact ih hu

/-- Every window of a log is that of its beginning, or later by `span`. -/
theorem start_le_of_mem_log (hspan : 0 < span) {w : FixedWindow} {ts : List Nat} {u : WindowUse}
    (hu : u ∈ w.log limit span ts) :
    w.start = u.window ∨ w.start = 0 ∨ w.start + span ≤ u.window := by
  induction ts generalizing w with
  | nil => cases hu
  | cons t ts ih =>
      have hfirst : _ ∨ _ ∨ w.start + span ≤ (w.use limit span t).2.start := use_start_le hspan w t
      rcases List.mem_cons.mp hu with rfl | hu
      · rw [use_window]
        exact hfirst
      · have hrest := ih hu
        omega

/-- Two windows of a log are the same or do not overlap. -/
theorem log_pairwise (hspan : 0 < span) (w : FixedWindow) (ts : List Nat) :
    (w.log limit span ts).Pairwise fun u u' =>
      u.window = u'.window ∨ u.window = 0 ∨ u.window + span ≤ u'.window := by
  induction ts generalizing w with
  | nil => exact .nil
  | cons t ts ih =>
      refine .cons (fun u hu => ?_) (ih _)
      rw [use_window]
      exact start_le_of_mem_log hspan hu

/-- A window that was not open at the beginning opens with its first use. -/
theorem at_of_first_use {w : FixedWindow} {ts : List Nat} {pre post : List WindowUse}
    {u : WindowUse} (h : w.log limit span ts = pre ++ u :: post) (hw : u.window ≠ w.start)
    (hpre : ∀ u' ∈ pre, u'.window ≠ u.window) : u.at_ = u.window := by
  induction ts generalizing w pre with
  | nil => simp [log] at h
  | cons t ts ih =>
      cases pre with
      | nil =>
          simp only [log, List.nil_append, List.cons.injEq] at h
          obtain ⟨rfl, -⟩ := h
          rw [use_window] at hw ⊢
          rw [use_at]
          rcases use_start limit span w t with ⟨hstart, -⟩ | ⟨hstart, -⟩
          · exact absurd hstart hw
          · exact hstart.symm
      | cons u' pre =>
          simp only [log, List.cons_append, List.cons.injEq] at h
          obtain ⟨rfl, h⟩ := h
          refine ih h ?_ fun u'' hu'' => hpre u'' (List.mem_cons_of_mem _ hu'')
          have hne := hpre _ List.mem_cons_self
          rw [use_window] at hne
          exact hne.symm

/-- What a log admits in the window it begins in. -/
theorem admitted_add_count_le (hspan : 0 < span) (hw : w.start ≠ 0) (ts : List Nat) :
    (w.log limit span ts).countP (fun u => u.admitted && u.window = w.start)
      ≤ limit - w.count := by
  induction ts generalizing w with
  | nil => exact Nat.zero_le _
  | cons t ts ih =>
      simp only [log, List.countP_cons]
      rcases use_start limit span w t with ⟨hstart, -, hlt⟩ | ⟨hstart, hclosed⟩
      · -- the window is still open
        have hopen : w.current span t = w := if_neg (not_or.mpr ⟨hw, Nat.not_le_of_lt hlt⟩)
        have hrest := ih (w := (w.use limit span t).2) (by rw [hstart]; exact hw)
        rw [hstart] at hrest
        by_cases hfull : limit ≤ w.count
        · simp only [use, hopen, if_pos hfull] at hrest ⊢
          simpa using hrest
        · simp only [use, hopen, if_neg hfull] at hrest ⊢
          simp only [decide_true, Bool.and_self, if_true]
          omega
      · -- it is closed, and no later use falls in it
        have hnew : w.start < (w.use limit span t).2.start := by omega
        have hzero : ((w.use limit span t).2.log limit span ts).countP
            (fun u => u.admitted && u.window = w.start) = 0 := by
          refine List.countP_eq_zero.mpr fun u hu => ?_
          have hle := start_le_of_mem_log hspan hu
          simp only [Bool.and_eq_true, decide_eq_true_eq, not_and]
          intro _
          omega
        have hfirst : (w.use limit span t).1.window ≠ w.start := by
          rw [use_window]
          omega
        simp [hzero, hfirst]

/-- A log admits at most `limit` uses in any one window. -/
theorem admitted_le (hspan : 0 < span) {v : Nat} (hv : v ≠ 0) (w : FixedWindow) (ts : List Nat) :
    (w.log limit span ts).countP (fun u => u.admitted && u.window = v) ≤ limit := by
  by_cases hstart : w.start = v
  · subst hstart
    exact Nat.le_trans (admitted_add_count_le hspan hv ts) (Nat.sub_le _ _)
  induction ts generalizing w with
  | nil => exact Nat.zero_le _
  | cons t ts ih =>
      simp only [log, List.countP_cons, use_window]
      by_cases hopens : (w.use limit span t).2.start = v
      · -- the use opens the window of `v`
        have hrest : (((w.use limit span t).2).log limit span ts).countP
            (fun u => u.admitted && u.window = (w.use limit span t).2.start)
              ≤ limit - (w.use limit span t).2.count :=
          admitted_add_count_le hspan (hopens ▸ hv) ts
        rw [hopens] at hrest
        have hfresh : w.current span t = ⟨t, 0⟩ := by
          rcases use_start limit span w t with ⟨hsame, -⟩ | ⟨-, hclosed⟩
          · exact absurd (hsame.symm.trans hopens) hstart
          · exact if_pos hclosed
        by_cases hnone : limit = 0
        · subst hnone
          simp only [use, hfresh, Nat.zero_le, if_true] at hrest ⊢
          simpa using hrest
        · have hsome : ¬limit ≤ 0 := by omega
          simp only [use, hfresh, if_neg hsome] at hrest hopens ⊢
          obtain rfl := hopens
          simp only [decide_true, Bool.and_self, if_true]
          omega
      · simpa [hopens] using ih _ hopens

end FixedWindow

end GhcpConsole
