import Mathlib.Data.List.Forall2
import GhcpConsole.ClaudeCode.CurrentDate

/-!
# Texts that differ in the current date

Two texts differ only in the digits of date lines under a heading (`DateVariant`). Without the blocks
they are equal exactly if each of these lines is covered: the text goes on behind it, and the number
of lines right above it that end with the heading is odd (`stripBlocks_eq_iff`).
-/

namespace GhcpConsole.ClaudeCode

/-! ## Variants -/

/-- Two date lines that differ only in digits. -/
structure SameButDigits (d d' : List Char) : Prop where
  left : isDateLine d = true
  right : isDateLine d' = true
  digits : List.Forall₂ (fun a b => a = b ∨ a.isDigit = true ∧ b.isDigit = true) d d'

/-- The lines differ only in the digits of date lines that stand directly under a heading; `under`
says that the line above is one. -/
inductive DateVariant : Bool → List (List Char) → List (List Char) → Prop
  | nil (under : Bool) : DateVariant under [] []
  | same (under : Bool) (line : List Char) (us vs : List (List Char))
      (h : DateVariant (line = currentDateHeading) us vs) :
      DateVariant under (line :: us) (line :: vs)
  | date (d d' : List Char) (us vs : List (List Char)) (hd : SameButDigits d d')
      (h : DateVariant false us vs) : DateVariant true (d :: us) (d' :: vs)

/-- A line that differs is not the last one, and the number of lines right above it that end with the
heading is odd. -/
def covered : Nat → List (List Char) → List (List Char) → Bool
  | n, x :: us, y :: vs =>
      (x = y || (!us.isEmpty && n % 2 = 1)) && covered (if endsHeading x then n + 1 else 0) us vs
  | _, _, _ => true

section Variants

variable {d d' line : List Char} {us vs : List (List Char)} {under : Bool} {n : Nat}

section
-- Generates the equations here, once for all the proofs below.
attribute [local simp] covered joinLines
end

theorem hash_mem_trim (h : endsHeading line = true) : '#' ∈ trim line := by
  obtain ⟨before, rfl⟩ := List.isSuffixOf_iff_suffix.mp h
  exact mem_trim (List.mem_append_right _ (by decide)) (by decide)

/-- A date line does not end with the heading. -/
theorem endsHeading_date (h : isDateLine d = true) : endsHeading d = false := by
  rw [Bool.eq_false_iff]
  intro hheading
  have hhash := hash_mem_trim hheading
  rcases Bool.or_eq_true _ _ ▸ h with hfits | hfits
  · exact fits_not_mem hfits (by decide) (by decide) hhash
  · exact fits_not_mem hfits (by decide) (by decide) hhash

theorem DateVariant.length (h : DateVariant under us vs) : us.length = vs.length := by
  induction h with
  | nil under => rfl
  | same under line us vs h ih => rw [List.length_cons, List.length_cons, ih]
  | date d d' us vs hd h ih => rw [List.length_cons, List.length_cons, ih]

/-! ## Blank lines -/

/-- The lines behind a block: the empty ones are dropped, but the last. -/
def dropBlank : List (List Char) → List (List Char)
  | [] :: line :: lines => dropBlank (line :: lines)
  | lines => lines

theorem length_dropBlank (lines : List (List Char)) : (dropBlank lines).length ≤ lines.length := by
  fun_induction dropBlank lines with
  | case1 line lines ih =>
      rw [List.length_cons]
      omega
  | case2 lines => exact Nat.le_refl _

theorem mem_dropBlank {lines : List (List Char)} (h : line ∈ dropBlank lines) : line ∈ lines := by
  fun_induction dropBlank lines with
  | case1 next lines ih => exact List.mem_cons_of_mem _ (ih h)
  | case2 lines => exact h

theorem joinLines_cons_cons {next : List Char} {lines : List (List Char)} :
    joinLines (line :: next :: lines) = line ++ '\n' :: joinLines (next :: lines) := by
  rw [joinLines, List.intercalate_cons_cons, List.append_assoc, List.singleton_append, joinLines]

theorem joinLines_singleton : joinLines [line] = line := by simp [joinLines]

theorem dropWhile_joinLines {lines : List (List Char)} (h : ∀ line ∈ lines, '\n' ∉ line) :
    (joinLines lines).dropWhile (· = '\n') = joinLines (dropBlank lines) := by
  fun_induction dropBlank lines with
  | case1 line lines ih =>
      rw [joinLines_cons_cons, List.nil_append, List.dropWhile_cons_of_pos (by simp)]
      exact ih fun l hl => h l (List.mem_cons_of_mem _ hl)
  | case2 lines hblank =>
      -- The first character is no newline: the first line is not empty, or there is no other.
      cases lines with
      | nil => rfl
      | cons line rest =>
          cases line with
          | nil =>
              cases rest with
              | nil => rfl
              | cons next rest => exact absurd rfl (hblank next rest)
          | cons c line =>
              have hc : c ≠ '\n' := fun heq => h (c :: line) List.mem_cons_self (heq ▸ List.mem_cons_self)
              cases rest with
              | nil =>
                  rw [joinLines_singleton, List.dropWhile_cons_of_neg (by simpa using hc)]
              | cons next rest =>
                  rw [joinLines_cons_cons, List.cons_append,
                    List.dropWhile_cons_of_neg (by simpa using hc)]

/-- Blank lines are not date lines, so they are dropped from both. -/
theorem DateVariant.dropBlank (h : DateVariant false us vs) :
    DateVariant false (dropBlank us) (dropBlank vs)
      ∧ covered 0 (ClaudeCode.dropBlank us) (ClaudeCode.dropBlank vs) = covered 0 us vs := by
  fun_induction ClaudeCode.dropBlank us generalizing vs with
  | case1 line lines ih =>
      cases h with
      | same under line' us' vs h =>
          cases vs with
          | nil => cases h
          | cons y vs =>
              have hrest := ih h
              refine ⟨hrest.1, hrest.2.trans ?_⟩
              rw [covered.eq_1 0 []]
              rfl
  | case2 lines hblank =>
      cases h with
      | nil => exact ⟨.nil false, rfl⟩
      | same under line us vs h =>
          cases line with
          | cons c line => exact ⟨.same false (c :: line) us vs h, rfl⟩
          | nil =>
              cases us with
              | cons next us => exact absurd rfl (hblank next us)
              | nil =>
                  cases h
                  exact ⟨.same false [] [] [] (.nil _), rfl⟩

/-! ## The blocks -/

section Steps

variable {x y a b c c' : List Char}

/-- A line that does not end with the heading stays. -/
theorem strip_line_iff (hx : endsHeading x = false) (hy : endsHeading y = false)
    (hus : ∀ line ∈ x :: us, '\n' ∉ line) (hvs : ∀ line ∈ y :: vs, '\n' ∉ line)
    (hxy : x.length = y.length) (hlength : us.length = vs.length)
    (ih : stripBlocks (joinLines us) = stripBlocks (joinLines vs) ↔ covered 0 us vs = true) :
    stripBlocks (joinLines (x :: us)) = stripBlocks (joinLines (y :: vs))
      ↔ x = y ∧ covered 0 us vs = true := by
  have hxn : '\n' ∉ x := hus x List.mem_cons_self
  have hyn : '\n' ∉ y := hvs y List.mem_cons_self
  cases us with
  | nil =>
      obtain rfl := List.length_eq_zero_iff.mp hlength.symm
      rw [joinLines_singleton, joinLines_singleton, stripBlocks_last hxn, stripBlocks_last hyn]
      exact ⟨fun heq => ⟨heq, rfl⟩, fun h => h.1⟩
  | cons u us =>
      cases vs with
      | nil => cases hlength
      | cons v vs =>
          rw [joinLines_cons_cons, joinLines_cons_cons, stripBlocks_line hxn hx,
            stripBlocks_line hyn hy, ← ih]
          constructor
          · intro heq
            obtain ⟨hline, hrest⟩ := List.append_inj heq hxy
            exact ⟨hline, (List.cons.inj hrest).2⟩
          · rintro ⟨rfl, heq⟩
            rw [heq]

/-- A block goes, whatever its date. -/
theorem strip_block_iff (ha : isDateLine a = true) (hb : isDateLine b = true) (hx : '\n' ∉ x)
    (hus : ∀ line ∈ a :: c :: us, '\n' ∉ line) (hvs : ∀ line ∈ b :: c' :: vs, '\n' ∉ line) :
    stripBlocks (joinLines ((x ++ currentDateHeading) :: a :: c :: us))
        = stripBlocks (joinLines ((x ++ currentDateHeading) :: b :: c' :: vs))
      ↔ stripBlocks (joinLines (dropBlank (c :: us))) = stripBlocks (joinLines (dropBlank (c' :: vs))) := by
  rw [joinLines_cons_cons, joinLines_cons_cons, joinLines_cons_cons, joinLines_cons_cons,
    stripBlocks_block hx (hus a List.mem_cons_self) ha, stripBlocks_block hx (hvs b List.mem_cons_self) hb,
    dropWhile_joinLines fun line hline => hus line (List.mem_cons_of_mem _ hline),
    dropWhile_joinLines fun line hline => hvs line (List.mem_cons_of_mem _ hline)]
  exact ⟨List.append_cancel_left, fun heq => by rw [heq]⟩

/-- Another line behind the heading stays with it. -/
theorem strip_other_iff (ha : isDateLine a = false) (hx : '\n' ∉ x) (hline : '\n' ∉ a) :
    stripBlocks (joinLines ((x ++ currentDateHeading) :: a :: c :: us))
        = stripBlocks (joinLines ((x ++ currentDateHeading) :: a :: c' :: vs))
      ↔ stripBlocks (joinLines (c :: us)) = stripBlocks (joinLines (c' :: vs)) := by
  rw [joinLines_cons_cons, joinLines_cons_cons, joinLines_cons_cons, joinLines_cons_cons,
    stripBlocks_other hx hline ha, stripBlocks_other hx hline ha]
  constructor
  · intro heq
    exact (List.cons.inj (List.append_cancel_left heq)).2
  · intro heq
    rw [heq]

theorem strip_truncated_iff (hx : '\n' ∉ x) (ha : '\n' ∉ a) (hb : '\n' ∉ b) :
    stripBlocks (joinLines [x ++ currentDateHeading, a])
        = stripBlocks (joinLines [x ++ currentDateHeading, b]) ↔ a = b := by
  rw [joinLines_cons_cons, joinLines_cons_cons, joinLines_singleton, joinLines_singleton,
    stripBlocks_truncated hx ha, stripBlocks_truncated hx hb]
  exact ⟨List.append_cancel_left, fun heq => by rw [heq]⟩

end Steps

theorem covered_cons {x y : List Char} : covered n (x :: us) (y :: vs)
    = ((x = y || (!us.isEmpty && n % 2 = 1)) && covered (if endsHeading x then n + 1 else 0) us vs) := rfl

theorem covered_nil : covered n [] vs = true := by rw [covered]; exact nofun

theorem ne_heading {line : List Char} (h : endsHeading line = false) :
    decide (line = currentDateHeading) = false := by
  refine decide_eq_false fun heq => ?_
  rw [heq] at h
  cases h

/-- Without their blocks two variants are equal exactly if each line in which they differ is covered. At
a line that the scan has come to, the number of headings right above is even. -/
theorem stripBlocks_eq_iff (h : DateVariant under us vs) (hus : ∀ line ∈ us, '\n' ∉ line)
    (hvs : ∀ line ∈ vs, '\n' ∉ line) (hn : n % 2 = 0) :
    stripBlocks (joinLines us) = stripBlocks (joinLines vs) ↔ covered n us vs = true := by
  induction hlength : us.length using Nat.strongRecOn generalizing under us vs n with
  | ind k ih =>
  have hmem {l : List (List Char)} {x : List Char} (hl : ∀ line ∈ x :: l, '\n' ∉ line) :
      ∀ line ∈ l, '\n' ∉ line := fun line hline => hl line (List.mem_cons_of_mem _ hline)
  cases h with
  | nil => simp [covered]
  | date d d' us vs hd h =>
      rw [List.length_cons] at hlength
      have hrest := ih us.length (by omega) h (hmem hus) (hmem hvs) (Nat.zero_mod 2) rfl
      rw [strip_line_iff (endsHeading_date hd.left) (endsHeading_date hd.right) hus hvs
        hd.digits.length_eq h.length hrest, covered_cons, endsHeading_date hd.left]
      simp [hn]
  | same under line us vs h =>
      rw [List.length_cons] at hlength
      cases hline : endsHeading line with
      | false =>
          have hrest := ih us.length (by omega) h (hmem hus) (hmem hvs) (Nat.zero_mod 2) rfl
          rw [strip_line_iff hline hline hus hvs rfl h.length hrest, covered_cons, hline]
          simp
      | true =>
          obtain ⟨x, rfl⟩ := List.isSuffixOf_iff_suffix.mp hline
          have hx : '\n' ∉ x := fun hx => hus _ List.mem_cons_self (List.mem_append_left _ hx)
          rw [covered_cons, hline, if_pos rfl]
          simp only [decide_true, Bool.true_or, Bool.true_and]
          generalize decide (x ++ currentDateHeading = currentDateHeading) = isHeading at h
          cases h with
          | nil => simp [covered]
          | date a b us vs hd h =>
              have ha : '\n' ∉ a := hmem hus a List.mem_cons_self
              have hb : '\n' ∉ b := hmem hvs b List.mem_cons_self
              rw [covered_cons, endsHeading_date hd.left]
              cases us with
              | nil =>
                  cases vs with
                  | cons c' vs => cases h
                  | nil =>
                      rw [strip_truncated_iff hx ha hb, covered_nil]
                      simp
              | cons c us =>
                  cases vs with
                  | nil => cases h
                  | cons c' vs =>
                      have hblank := h.dropBlank
                      have hshorter := length_dropBlank (c :: us)
                      rw [List.length_cons] at hlength
                      rw [strip_block_iff hd.left hd.right hx (hmem hus) (hmem hvs),
                        ih _ (by omega) hblank.1 (fun l hl => hmem (hmem hus) l (mem_dropBlank hl))
                          (fun l hl => hmem (hmem hvs) l (mem_dropBlank hl)) (Nat.zero_mod 2) rfl,
                        hblank.2]
                      have hodd : (n + 1) % 2 = 1 := by omega
                      simp [hodd]
          | same under a us vs h =>
              have ha : '\n' ∉ a := hmem hus a List.mem_cons_self
              rw [covered_cons]
              simp only [decide_true, Bool.true_or, Bool.true_and]
              cases us with
              | nil =>
                  obtain rfl := List.length_eq_zero_iff.mp h.length.symm
                  simp [covered]
              | cons c us =>
                  cases vs with
                  | nil => cases h.length
                  | cons c' vs =>
                      rw [List.length_cons] at hlength
                      cases hdate : isDateLine a with
                      | true =>
                          rw [ne_heading (endsHeading_date hdate)] at h
                          have hblank := h.dropBlank
                          have hshorter := length_dropBlank (c :: us)
                          rw [strip_block_iff hdate hdate hx (hmem hus) (hmem hvs),
                            ih _ (by omega) hblank.1 (fun l hl => hmem (hmem hus) l (mem_dropBlank hl))
                              (fun l hl => hmem (hmem hvs) l (mem_dropBlank hl)) (Nat.zero_mod 2) rfl,
                            hblank.2, endsHeading_date hdate]
                          rfl
                      | false =>
                          have heven : (if endsHeading a then n + 1 + 1 else 0) % 2 = 0 := by
                            split <;> omega
                          rw [strip_other_iff hdate hx ha,
                            ih _ (by omega) h (hmem (hmem hus)) (hmem (hmem hvs)) heven rfl]

end Variants

/-! ## Texts -/

def textLines (text : String) : List (List Char) := text.toList.splitOn '\n'

theorem newline_not_mem_splitOn (text : List Char) : ∀ line ∈ text.splitOn '\n', '\n' ∉ line := by
  induction text with
  | nil => simp
  | cons c text ih =>
      rw [List.splitOn_cons_eq_if_modifyHead]
      split
      · intro line hline
        rcases List.mem_cons.mp hline with rfl | hline
        · exact List.not_mem_nil
        · exact ih line hline
      · rename_i hc
        cases hsplit : text.splitOn '\n' with
        | nil => exact absurd hsplit (List.splitOn_ne_nil _ _)
        | cons first lines =>
            intro line hline
            rw [hsplit] at ih
            rcases List.mem_cons.mp hline with rfl | hline
            · intro hmem
              rcases List.mem_cons.mp hmem with rfl | hmem
              · exact hc (beq_self_eq_true _)
              · exact ih first List.mem_cons_self hmem
            · exact ih line (List.mem_cons_of_mem _ hline)

/-- The texts differ only in the digits of the dates under their headings. -/
def SameButDates (u v : String) : Prop := DateVariant false (textLines u) (textLines v)

/-- Every date in which the texts differ is in a block that is found. -/
def DatesCovered (u v : String) : Prop := covered 0 (textLines u) (textLines v) = true

instance (u v : String) : Decidable (DatesCovered u v) := inferInstanceAs (Decidable (_ = true))

theorem stripCurrentDateBlock_eq_iff {u v : String} (h : SameButDates u v) :
    stripCurrentDateBlock u = stripCurrentDateBlock v ↔ DatesCovered u v := by
  have hjoin (text : String) : joinLines (textLines text) = text.toList := List.intercalate_splitOn _
  have hblocks := stripBlocks_eq_iff h (newline_not_mem_splitOn _) (newline_not_mem_splitOn _)
    (Nat.zero_mod 2)
  rw [hjoin, hjoin] at hblocks
  rw [stripCurrentDateBlock_eq, stripCurrentDateBlock_eq, String.ofList_inj, hblocks, DatesCovered]

end GhcpConsole.ClaudeCode
