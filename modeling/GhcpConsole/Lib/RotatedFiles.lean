import Mathlib.Data.List.Basic
import Mathlib.Data.List.Infix
import Mathlib.Logic.Function.Basic

/-!
# Numbered files that are rotated

What is written goes to the end of file 0. To make room, the last file is given up and every other one gets
the next number. Wherever a rotation is cut off, the contents from the oldest file to file 0 are those from
before it, or those without the file that was given up (`contents_rotate`).
-/

namespace GhcpConsole.Rotated

variable {α β : Type}

/-- Files by their numbers; one that does not exist has no contents. -/
abbrev Files (α : Type) := Nat → Option (List α)

inductive Call (α : Type) where
  | remove (i : Nat)
  | rename (i j : Nat)
  | append (items : List α)
  deriving DecidableEq, Repr

/-- A file that is not there is neither removed nor renamed; one that is written to is made. -/
def Call.perform (files : Files α) : Call α → Files α
  | .remove i => Function.update files i none
  | .rename i j =>
      match files i with
      | none => files
      | some items => Function.update (Function.update files j (some items)) i none
  | .append items => Function.update files 0 (some ((files 0).getD [] ++ items))

def performAll (files : Files α) (calls : List (Call α)) : Files α := calls.foldl Call.perform files

/-- File `k` takes the place of the one after it, and so do those before it. -/
def renames : Nat → List (Call α)
  | 0 => []
  | k + 1 => .rename k (k + 1) :: renames k

/-- Of `n` files the last one is given up. -/
def rotate (n : Nat) : List (Call α) := .remove (n - 1) :: renames (n - 1)

/-- The contents of `n` files, the oldest first. -/
def contents (n : Nat) (files : Files α) : List α :=
  (List.range n).reverse.flatMap fun i => (files i).getD []

section
-- Generates the equations here, once for all the proofs below.
attribute [local simp] Call.perform performAll renames rotate contents
end

section Contents

variable {files files' : Files α} {n i : Nat} {items : List α}

@[simp] theorem contents_zero (files : Files α) : contents 0 files = [] := rfl

theorem contents_succ (n : Nat) (files : Files α) :
    contents (n + 1) files = (files n).getD [] ++ contents n files := by
  rw [contents, List.range_succ, List.reverse_concat, List.flatMap_cons]
  rfl

theorem contents_congr (h : ∀ i < n, files i = files' i) : contents n files = contents n files' := by
  induction n with
  | zero => rfl
  | succ n ih =>
      rw [contents_succ, contents_succ, h n (Nat.lt_succ_self n), ih fun i lt => h i (Nat.lt_succ_of_lt lt)]

theorem contents_empty (n : Nat) : contents n (fun _ => none : Files α) = [] := by
  induction n with
  | zero => rfl
  | succ n ih =>
      rw [contents_succ, ih]
      rfl

/-- What is written comes last. -/
theorem contents_append (n : Nat) (files : Files α) (items : List α) :
    contents (n + 1) ((Call.append items).perform files) = contents (n + 1) files ++ items := by
  induction n with
  | zero =>
      rw [contents_succ, contents_succ, Call.perform, Function.update_self]
      simp
  | succ n ih =>
      rw [contents_succ, ih, contents_succ (n + 1) files, Call.perform,
        Function.update_of_ne (Nat.succ_ne_zero n), List.append_assoc]

end Contents

section Rotation

variable {files : Files α} {n k m : Nat}

/-- The files from `k` on have moved up, and there is no file `k`. -/
def shifted (n k : Nat) (files : Files α) : Files α := fun j =>
  if j = k then none else if k < j ∧ j < n then files (j - 1) else files j

section
-- Generates the equations here, once for all the proofs below.
attribute [local simp] shifted
end

theorem perform_remove (n : Nat) (files : Files α) :
    (Call.remove n).perform files = shifted (n + 1) n files := by
  funext j
  by_cases same : j = n
  · rw [same, Call.perform, Function.update_self, shifted, if_pos rfl]
  · rw [Call.perform, Function.update_of_ne same, shifted, if_neg same, if_neg (by omega)]

theorem perform_rename (h : k + 1 < n) (files : Files α) :
    (Call.rename k (k + 1)).perform (shifted n (k + 1) files) = shifted n k files := by
  have own : shifted n (k + 1) files k = files k := by
    rw [shifted, if_neg (by omega), if_neg (by omega)]
  have later : ∀ j, j ≠ k → j ≠ k + 1 → shifted n (k + 1) files j = shifted n k files j := by
    intro j other next
    unfold shifted
    rw [if_neg next, if_neg other]
    by_cases moved : k + 1 < j ∧ j < n
    · rw [if_pos moved, if_pos (by omega)]
    · rw [if_neg moved, if_neg (by omega)]
  have here : shifted n k files k = none := if_pos rfl
  have up : shifted n k files (k + 1) = files k := by
    rw [shifted, if_neg (by omega), if_pos (by omega)]
    rfl
  funext j
  unfold Call.perform
  dsimp only
  rw [own]
  cases file : files k with
  | none =>
      dsimp only
      by_cases first : j = k
      · rw [first, own, here, file]
      · by_cases second : j = k + 1
        · rw [second, up, file, shifted, if_pos rfl]
        · exact later j first second
  | some items =>
      dsimp only
      by_cases first : j = k
      · rw [first, Function.update_self, here]
      · rw [Function.update_of_ne first]
        by_cases second : j = k + 1
        · rw [second, Function.update_self, up, file]
        · rw [Function.update_of_ne second]
          exact later j first second

theorem performAll_renames (h : k < n) (m : Nat) (files : Files α) :
    performAll (shifted n k files) ((renames k).take m) = shifted n (k - m) files := by
  induction k generalizing m with
  | zero =>
      rw [renames, List.take_nil, Nat.zero_sub]
      rfl
  | succ k ih =>
      cases m with
      | zero => rfl
      | succ m =>
          rw [renames, List.take_succ_cons, performAll, List.foldl_cons, perform_rename h, Nat.succ_sub_succ]
          exact ih (by omega) m

/-- What a rotation has done after its first calls. -/
theorem performAll_rotate (n m : Nat) (files : Files α) :
    performAll files ((rotate (n + 1)).take (m + 1)) = shifted (n + 1) (n - m) files := by
  rw [rotate, List.take_succ_cons, performAll, List.foldl_cons, Nat.add_sub_cancel, perform_remove]
  exact performAll_renames (Nat.lt_succ_self n) m files

theorem length_rotate (n : Nat) : (rotate (n + 1) : List (Call α)).length = n + 1 := by
  have renamed : ∀ k, (renames k : List (Call α)).length = k := by
    intro k
    induction k with
    | zero => rfl
    | succ k ih => rw [renames, List.length_cons, ih]
  rw [rotate, List.length_cons, Nat.add_sub_cancel, renamed]

/-- Nothing but the last file is lost. -/
theorem contents_shifted (h : k ≤ n) (files : Files α) :
    contents (n + 1) (shifted (n + 1) k files) = contents n files := by
  have part : ∀ m, k ≤ m → m ≤ n → contents (m + 1) (shifted (n + 1) k files) = contents m files := by
    intro m above below
    induction m, above using Nat.le_induction with
    | base =>
        have gone : shifted (n + 1) k files k = none := if_pos rfl
        rw [contents_succ, gone]
        refine contents_congr fun i lt => ?_
        rw [shifted, if_neg (by omega), if_neg (by omega)]
    | succ m above ih =>
        have moved : shifted (n + 1) k files (m + 1) = files m := by
          rw [shifted, if_neg (by omega), if_pos (by omega), Nat.add_sub_cancel]
        rw [contents_succ, moved, ih (by omega), contents_succ]
  exact part n h (Nat.le_refl n)

/-- A rotation that is cut off after any of its calls. -/
theorem contents_rotate (n m : Nat) (files : Files α) :
    contents (n + 1) (performAll files ((rotate (n + 1)).take m)) <:+ contents (n + 1) files := by
  cases m with
  | zero => exact List.suffix_rfl
  | succ m =>
      rw [performAll_rotate, contents_shifted (Nat.sub_le n m), contents_succ]
      exact List.suffix_append _ _

/-- Every file is one that was there. -/
theorem exists_of_rotate {n m j : Nat} {files : Files α} {items : List α}
    (h : performAll files ((rotate (n + 1)).take m) j = some items) :
    ∃ i, files i = some items ∧ (n < j → n < i) := by
  cases m with
  | zero => exact ⟨j, h, id⟩
  | succ m =>
      rw [performAll_rotate] at h
      unfold shifted at h
      split at h
      · cases h
      · split at h
        · exact ⟨j - 1, h, by omega⟩
        · exact ⟨j, h, id⟩

/-- After a whole rotation there is no file to write to. -/
theorem rotate_first (n : Nat) (files : Files α) : performAll files (rotate (n + 1)) 0 = none := by
  have whole := performAll_rotate n n files
  rw [List.take_of_length_le (Nat.le_of_eq (length_rotate n)), Nat.sub_self] at whole
  rw [whole]
  exact if_pos rfl

end Rotation

/-! ## Calls that are not all made -/

/-- How far a list of calls comes: to its end, or through the first of them and, where a write is next, so
many items of it. -/
inductive Reach where
  | whole
  | cut (calls : Nat) (written : Option Nat)
  deriving DecidableEq, Repr

def Reach.calls (reach : Reach) (calls : List (Call α)) : List (Call α) :=
  match reach with
  | .whole => calls
  | .cut n written => calls.take n ++
      match calls[n]?, written with
      | some (.append items), some m => [.append (items.take m)]
      | _, _ => []

section Reach

variable {items : List α} {calls : List (Call α)} {n : Nat}

theorem not_append_of_rotate {call : Call α} (h : call ∈ rotate n) (items : List α) : call ≠ .append items := by
  have renamed : ∀ k, call ∈ renames k → ∃ i j, call = .rename i j := by
    intro k mem
    induction k with
    | zero => cases mem
    | succ k ih =>
        rcases List.mem_cons.mp mem with rfl | later
        · exact ⟨k, k + 1, rfl⟩
        · exact ih later
  rintro rfl
  rcases List.mem_cons.mp h with first | later
  · cases first
  · obtain ⟨_, _, same⟩ := renamed _ later
    cases same

/-- Calls before a write that are cut off are the first of them, or the first items of the write are there. -/
theorem cut_calls (h : ∀ call ∈ calls, ∀ items, call ≠ .append items) (items : List α) (n : Nat)
    (written : Option Nat) :
    (∃ m, (Reach.cut n written).calls (calls ++ [.append items]) = calls.take m)
      ∨ ∃ m, (Reach.cut n written).calls (calls ++ [.append items]) = calls ++ [.append (items.take m)] := by
  rcases Nat.lt_trichotomy n calls.length with before | rfl | after
  · refine .inl ⟨n, ?_⟩
    have other := h calls[n] (List.getElem_mem before)
    unfold Reach.calls
    dsimp only
    rw [List.take_append_of_le_length (Nat.le_of_lt before), List.getElem?_append_left before,
      List.getElem?_eq_getElem before]
    cases call : calls[n] with
    | remove i => exact List.append_nil _
    | rename i j => exact List.append_nil _
    | append items => exact absurd call (other items)
  · cases written with
    | none => exact .inl ⟨calls.length, by simp [Reach.calls]⟩
    | some m => exact .inr ⟨m, by simp [Reach.calls]⟩
  · refine .inr ⟨items.length, ?_⟩
    have whole : (calls ++ [Call.append items]).length ≤ n := by
      rw [List.length_append, List.length_singleton]
      exact after
    unfold Reach.calls
    dsimp only
    rw [List.take_of_length_le whole, List.getElem?_eq_none whole, List.take_length]
    exact List.append_nil _

end Reach

/-! ## Items that are made of others -/

section Map

variable {f : α → List β} {files : Files α}

def Files.flatMap (files : Files α) (f : α → List β) : Files β := fun i => (files i).map (·.flatMap f)

def Call.flatMap (f : α → List β) : Call α → Call β
  | .remove i => .remove i
  | .rename i j => .rename i j
  | .append items => .append (items.flatMap f)

theorem flatMap_update (files : Files α) (i : Nat) (file : Option (List α)) :
    Files.flatMap (Function.update files i file) f
      = Function.update (files.flatMap f) i (file.map (·.flatMap f)) := by
  funext j
  by_cases same : j = i
  · rw [same, Function.update_self, Files.flatMap, Function.update_self]
  · unfold Files.flatMap
    rw [Function.update_of_ne same, Function.update_of_ne same]

theorem perform_flatMap (files : Files α) (call : Call α) :
    (call.flatMap f).perform (files.flatMap f) = (call.perform files).flatMap f := by
  cases call with
  | remove i => exact (flatMap_update files i none).symm
  | rename i k =>
      have own : files.flatMap f i = (files i).map (·.flatMap f) := rfl
      rw [Call.flatMap, Call.perform, Call.perform, own]
      cases files i with
      | none => rfl
      | some items =>
          dsimp only [Option.map_some]
          rw [flatMap_update, flatMap_update]
          rfl
  | append items =>
      have own : (files.flatMap f 0).getD [] = ((files 0).getD []).flatMap f := by
        rw [Files.flatMap]
        cases files 0 <;> rfl
      rw [Call.flatMap, Call.perform, Call.perform, flatMap_update, own, Option.map_some, List.flatMap_append]

theorem performAll_flatMap (files : Files α) (calls : List (Call α)) :
    performAll (files.flatMap f) (calls.map (Call.flatMap f)) = (performAll files calls).flatMap f := by
  induction calls generalizing files with
  | nil => rfl
  | cons call calls ih =>
      rw [List.map_cons, performAll, List.foldl_cons, perform_flatMap]
      exact ih (call.perform files)

theorem rotate_flatMap (n : Nat) : (rotate n).map (Call.flatMap f) = rotate n := by
  have renamed : ∀ k, (renames k).map (Call.flatMap f) = renames k := by
    intro k
    induction k with
    | zero => rfl
    | succ k ih =>
        rw [renames, List.map_cons, ih]
        rfl
  rw [rotate, List.map_cons, renamed]
  rfl

end Map

end GhcpConsole.Rotated
