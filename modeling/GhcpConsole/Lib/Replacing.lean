import Mathlib.Data.List.Infix
import Mathlib.Data.List.Chain

/-!
# Replacing what is found in a text by a mark

`replaceWith find put` goes through a text from left to right: where `find` finds something, `put` says
what comes in its place, and the search goes on behind it. What is replaced is replaced by a mark, so that
a text on its way through several replacements is a list of blocks: units that were there from the start,
and marks. As long as nothing that is found cuts through a mark, every replacement masks some of the blocks
(`masks_replaceWith`), and a part of the last text that no mark overlaps was there from the start.
-/

namespace GhcpConsole

variable {α : Type}

/-- The text from one position on, with the unit before it: `find` gives the length of what begins there.
A find of length 0 counts as none. The `skip` next units belong to the last find. -/
def replaceWith (find : Option α → List α → Option Nat) (put : List α → List α) :
    Option α → Nat → List α → List α
  | _, _, [] => []
  | _, skip + 1, c :: text => replaceWith find put (some c) skip text
  | before, 0, c :: text =>
      match find before (c :: text) with
      | some (n + 1) => put ((c :: text).take (n + 1)) ++ replaceWith find put (some c) n text
      | _ => c :: replaceWith find put (some c) 0 text

section Steps

variable {find : Option α → List α → Option Nat} {put : List α → List α} {before : Option α}
  {c : α} {m text : List α} {n : Nat}

section
-- Generates the equations here, once for all the proofs below.
attribute [local simp] replaceWith
end

theorem replaceWith_skip {skip : Nat} (length : m.length = skip) :
    replaceWith find put before skip (m ++ text) = replaceWith find put (m.getLast?.or before) 0 text := by
  induction m generalizing before skip with
  | nil =>
      subst length
      rfl
  | cons c m ih =>
      subst length
      rw [List.length_cons, List.cons_append, replaceWith, ih rfl]
      cases m with
      | nil => rfl
      | cons d m =>
          rw [List.getLast?_cons_cons]
          cases last : (d :: m).getLast? with
          | none => exact absurd last (by simp)
          | some e => rfl

theorem replaceWith_found (nonempty : m ≠ []) (found : find before (m ++ text) = some m.length) :
    replaceWith find put before 0 (m ++ text) = put m ++ replaceWith find put m.getLast? 0 text := by
  obtain ⟨c, m, rfl⟩ := List.exists_cons_of_ne_nil nonempty
  rw [List.cons_append] at found ⊢
  have last : (c :: m).getLast? = m.getLast?.or (some c) := by
    rw [List.getLast?_cons]
    cases m.getLast? <;> rfl
  have part : (c :: (m ++ text)).take (m.length + 1) = c :: m := by
    rw [List.take_succ_cons, List.take_left]
  rw [replaceWith, found, List.length_cons]
  dsimp only
  rw [part, replaceWith_skip rfl, last]

theorem replaceWith_missed (missed : ∀ n, find before (c :: text) ≠ some (n + 1)) :
    replaceWith find put before 0 (c :: text) = c :: replaceWith find put (some c) 0 text := by
  rw [replaceWith]
  split
  · rename_i n found
    exact absurd found (missed n)
  · rfl

end Steps

/-- A unit that was there from the start, or a mark. -/
abbrev Block (α : Type) := Option α

section Blocks

variable (mark : List α)

/-- The text that the blocks make. -/
def spelled (blocks : List (Block α)) : List α := blocks.flatMap fun block => block.elim mark ([·])

/-- Some runs of blocks have become marks. -/
inductive Masks : List (Block α) → List (Block α) → Prop
  | done : Masks [] []
  | keep (block : Block α) {old new : List (Block α)} (later : Masks old new) : Masks (block :: old) (block :: new)
  | mask {run old new : List (Block α)} (nonempty : run ≠ []) (later : Masks old new) :
      Masks (run ++ old) (none :: new)

variable {mark} {old new : List (Block α)} {s u v text : List α}

@[simp] theorem spelled_nil : spelled mark [] = [] := rfl

@[simp] theorem spelled_some {c : α} : spelled mark (some c :: old) = c :: spelled mark old := rfl

@[simp] theorem spelled_none : spelled mark (none :: old) = mark ++ spelled mark old := rfl

@[simp] theorem spelled_append : spelled mark (old ++ new) = spelled mark old ++ spelled mark new :=
  List.flatMap_append

@[simp] theorem spelled_map_some : spelled mark (text.map some) = text := by
  induction text with
  | nil => rfl
  | cons c text ih => rw [List.map_cons, spelled_some, ih]

theorem Masks.refl (old : List (Block α)) : Masks old old := by
  induction old with
  | nil => exact .done
  | cons block old ih => exact .keep block ih

theorem Masks.append_left (run : List (Block α)) (h : Masks old new) : Masks (run ++ old) (run ++ new) := by
  induction run with
  | nil => exact h
  | cons block run ih => exact .keep block ih

theorem Masks.prefix_run (h : Masks old new) (first : s.map some <+: new) : s.map some <+: old := by
  induction h generalizing s with
  | done => exact first
  | keep block _ ih =>
      cases s with
      | nil => exact List.nil_prefix
      | cons c s =>
          obtain ⟨same, later⟩ := List.cons_prefix_cons.mp first
          exact List.cons_prefix_cons.mpr ⟨same, ih later⟩
  | mask _ _ _ =>
      cases s with
      | nil => exact List.nil_prefix
      | cons c s => cases (List.cons_prefix_cons.mp first).1

/-- Units that stand together afterwards stood together before. -/
theorem Masks.infix_run (h : Masks old new) (part : s.map some <:+: new) : s.map some <:+: old := by
  induction h with
  | done => exact part
  | keep block later ih =>
      rcases List.infix_cons_iff.mp part with first | rest
      · exact ((later.keep block).prefix_run first).isInfix
      · exact (ih rest).trans (List.suffix_cons _ _).isInfix
  | @mask run old new nonempty later ih =>
      rcases List.infix_cons_iff.mp part with first | rest
      · exact ((later.mask nonempty).prefix_run first).isInfix
      · exact (ih rest).trans (List.suffix_append _ _).isInfix

theorem Masks.eq_nil (h : Masks old new) (empty : old = []) : new = [] := by
  cases h with
  | done => rfl
  | keep => cases empty
  | mask nonempty _ => exact absurd (List.append_eq_nil_iff.mp empty).1 nonempty

theorem Masks.exists_of_append {first second : List (Block α)} (h : Masks old (first ++ second)) :
    ∃ old₁ old₂, old = old₁ ++ old₂ ∧ Masks old₁ first ∧ Masks old₂ second := by
  induction first generalizing old with
  | nil => exact ⟨[], old, rfl, .done, h⟩
  | cons block first ih =>
      rw [List.cons_append] at h
      cases h with
      | keep _ later =>
          obtain ⟨old₁, old₂, rfl, hfirst, hsecond⟩ := ih later
          exact ⟨block :: old₁, old₂, rfl, hfirst.keep block, hsecond⟩
      | @mask run _ _ nonempty later =>
          obtain ⟨old₁, old₂, rfl, hfirst, hsecond⟩ := ih later
          exact ⟨run ++ old₁, old₂, (List.append_assoc _ _ _).symm, hfirst.mask nonempty, hsecond⟩

theorem Masks.trans {middle : List (Block α)} (first : Masks old middle) (second : Masks middle new) :
    Masks old new := by
  induction second generalizing old with
  | done => exact first
  | keep block _ ih =>
      cases first with
      | keep _ later => exact (ih later).keep block
      | mask nonempty later => exact (ih later).mask nonempty
  | @mask run _ _ nonempty _ ih =>
      obtain ⟨old₁, old₂, rfl, hrun, later⟩ := first.exists_of_append
      refine (ih later).mask ?_
      rintro rfl
      exact nonempty (hrun.eq_nil rfl)

end Blocks

section Exposed

variable (mark : List α)

/-- A part of the text that no mark overlaps. -/
def Exposed (s text : List α) : Prop :=
  ∃ u v, text = u ++ s ++ v ∧ ∀ a b, text = a ++ mark ++ b →
    a.length + mark.length ≤ u.length ∨ u.length + s.length ≤ a.length

variable {mark} {blocks : List (Block α)} {s u v : List α}

theorem run_prefix_of_untouched (text : spelled mark blocks = s ++ v)
    (free : ∀ a b, spelled mark blocks = a ++ mark ++ b → s.length ≤ a.length) :
    s.map Option.some <+: blocks := by
  induction blocks generalizing s with
  | nil =>
      obtain ⟨rfl, rfl⟩ := List.append_eq_nil_iff.mp text.symm
      exact List.nil_prefix
  | cons block blocks ih =>
      cases s with
      | nil => exact List.nil_prefix
      | cons c s =>
          cases block with
          | none => exact absurd (free [] (spelled mark blocks) (by simp)) (by simp)
          | some d =>
              rw [spelled_some, List.cons_append, List.cons.injEq] at text
              refine List.cons_prefix_cons.mpr ⟨congrArg Option.some text.1.symm, ih text.2 fun a b split => ?_⟩
              exact Nat.le_of_succ_le_succ (free (d :: a) b (by rw [spelled_some, split]; rfl))

/-- What no mark overlaps are units that stood together. -/
theorem run_infix_of_exposed (some : mark ≠ []) (nonempty : s ≠ []) (h : Exposed mark s (spelled mark blocks)) :
    s.map Option.some <:+: blocks := by
  obtain ⟨u, v, text, free⟩ := h
  induction blocks generalizing u with
  | nil => exact absurd text.symm (by simp [nonempty])
  | cons block blocks ih =>
      cases block with
      | none =>
          have behind : mark.length ≤ u.length := by
            rcases free [] (spelled mark blocks) (by simp) with left | right
            · simpa using left
            · have := List.length_pos_iff.mpr nonempty
              simp only [List.length_nil] at right
              omega
          rw [spelled_none, List.append_assoc] at text
          obtain ⟨w, rfl, rest⟩ : ∃ w, u = mark ++ w ∧ spelled mark blocks = w ++ (s ++ v) := by
            rcases List.append_eq_append_iff.mp text with ⟨w, front, back⟩ | ⟨w, front, back⟩
            · exact ⟨w, front, back⟩
            · obtain rfl : w = [] := by
                have := congrArg List.length front
                rw [List.length_append] at this
                exact List.length_eq_zero_iff.mp (by omega)
              exact ⟨[], by rw [front]; simp, by rw [back]; rfl⟩
          refine (ih w (by rw [rest, List.append_assoc]) fun a b split => ?_).trans (List.suffix_cons _ _).isInfix
          have := free (mark ++ a) b (by rw [spelled_none, split]; simp)
          simp only [List.length_append] at this
          omega
      | some c =>
          cases u with
          | nil =>
              refine (run_prefix_of_untouched (v := v) (by simpa using text) fun a b split => ?_).isInfix
              have := free a b split
              have := List.length_pos_iff.mpr some
              simp only [List.length_nil] at *
              omega
          | cons d u =>
              rw [spelled_some, List.cons_append, List.cons_append, List.cons.injEq] at text
              refine (ih u text.2 fun a b split => ?_).trans (List.suffix_cons _ _).isInfix
              have := free (c :: a) b (by rw [spelled_some, split]; rfl)
              simp only [List.length_cons] at this
              omega

/-- What stands around a text without units of the mark adds no mark to it. -/
theorem Exposed.surround {before after text : List α} (some : mark ≠ []) (h : Exposed mark s text)
    (left : ∀ c ∈ before, c ∉ mark) (right : ∀ c ∈ after, c ∉ mark) : Exposed mark s (before ++ text ++ after) := by
  obtain ⟨u, v, rfl, free⟩ := h
  refine ⟨before ++ u, v ++ after, by simp only [List.append_assoc], fun a b split => ?_⟩
  -- no mark begins before the text
  obtain ⟨a, rfl, inside⟩ : ∃ a', a = before ++ a' ∧ u ++ s ++ v ++ after = a' ++ mark ++ b := by
    rw [List.append_assoc, List.append_assoc a] at split
    rcases List.append_eq_append_iff.mp split with ⟨a', front, back⟩ | ⟨rest, front, back⟩
    · exact ⟨a', front, by rw [back, List.append_assoc]⟩
    · cases rest with
      | nil => exact ⟨[], by rw [front, List.append_nil, List.append_nil], by rw [List.nil_append]; exact back.symm⟩
      | cons c rest =>
          obtain ⟨d, mark, rfl⟩ := List.exists_cons_of_ne_nil some
          obtain ⟨rfl, -⟩ := List.cons.inj back
          exact absurd List.mem_cons_self (left _ (by simp [front]))
  -- and none ends behind it
  obtain ⟨b, whole⟩ : ∃ b', u ++ s ++ v = a ++ mark ++ b' := by
    rcases List.append_eq_append_iff.mp inside with ⟨rest, front, back⟩ | ⟨b', front, back⟩
    · rcases List.eq_nil_or_concat' rest with rfl | ⟨rest, c, rfl⟩
      · exact ⟨[], by rw [front, List.append_nil, List.append_nil]⟩
      · obtain ⟨mark, d, rfl⟩ := (List.eq_nil_or_concat' mark).resolve_left some
        rw [← List.append_assoc, ← List.append_assoc] at front
        obtain ⟨-, same⟩ := List.append_inj' front rfl
        exact absurd (by simp [List.cons.inj same]) (right c (by simp [back]))
    · exact ⟨b', front⟩
  have := free a b whole
  simp only [List.length_append] at this ⊢
  omega

end Exposed

section Runs

variable (f : List α → List α)

/-- The runs between the marks are changed; `run` is what has been read of the first one. -/
def mapRuns : List α → List (Block α) → List (Block α)
  | run, [] => (f run).map some
  | run, some c :: blocks => mapRuns (run ++ [c]) blocks
  | run, none :: blocks => (f run).map some ++ none :: mapRuns [] blocks

variable {f} {mark : List α} {run s : List α} {blocks : List (Block α)}

theorem spelled_mapRuns (h : ∀ run rest, f (run ++ (mark ++ rest)) = f run ++ (mark ++ f rest)) :
    f (run ++ spelled mark blocks) = spelled mark (mapRuns f run blocks) := by
  induction blocks generalizing run with
  | nil => rw [spelled_nil, List.append_nil, mapRuns, spelled_map_some]
  | cons block blocks ih =>
      cases block with
      | none =>
          rw [spelled_none, h, ← List.nil_append (spelled mark blocks), ih, mapRuns, spelled_append, spelled_map_some,
            spelled_none]
      | some c => rw [spelled_some, List.append_cons, ih, mapRuns]

/-- Units that stand together are in what one run was changed to. -/
theorem exists_of_infix_mapRuns (nonempty : s ≠ []) (part : s.map some <:+: mapRuns f run blocks) :
    ∃ old, old.map some <:+: run.map some ++ blocks ∧ s <:+: f old := by
  induction blocks generalizing run with
  | nil =>
      rw [mapRuns] at part
      obtain ⟨t, inRun, same⟩ := List.infix_map_iff.mp part
      rw [List.map_inj_right fun _ _ => Option.some.inj] at same
      exact ⟨run, (List.prefix_append _ _).isInfix, same ▸ inRun⟩
  | cons block blocks ih =>
      cases block with
      | none =>
          rw [mapRuns] at part
          rcases List.infix_append_iff_ne_nil.mp part with inRun | later | ⟨t, t', _, other, split, _, first⟩
          · obtain ⟨t, inRun, same⟩ := List.infix_map_iff.mp inRun
            rw [List.map_inj_right fun _ _ => Option.some.inj] at same
            exact ⟨run, (List.prefix_append _ _).isInfix, same ▸ inRun⟩
          · rcases List.infix_cons_iff.mp later with first | later
            · obtain ⟨c, s, rfl⟩ := List.exists_cons_of_ne_nil nonempty
              cases (List.cons_prefix_cons.mp first).1
            · obtain ⟨old, inside, part⟩ := ih later
              exact ⟨old, inside.trans ((List.suffix_cons _ _).trans (List.suffix_append _ _)).isInfix, part⟩
          · -- no unit is a mark
            obtain ⟨block, t', rfl⟩ := List.exists_cons_of_ne_nil other
            obtain ⟨rfl, -⟩ := List.cons_prefix_cons.mp first
            have mark : none ∈ s.map some := by simp [split]
            simp at mark
      | some c =>
          obtain ⟨old, inside, part⟩ := ih part
          exact ⟨old, by rwa [List.map_append, List.append_assoc] at inside, part⟩

end Runs

section Replacing

variable {mark : List α} {find : Option α → List α → Option Nat} {put : List α → List α}

/-- What is found lies within the text. -/
def Within (find : Option α → List α → Option Nat) : Prop :=
  ∀ before text n, find before text = some n → n ≤ text.length

theorem length_replaceWith (within : Within find) (puts : ∀ before text n, find before text = some (n + 1) →
      (put (text.take (n + 1))).length ≤ n + 1)
    (before : Option α) (text : List α) : (replaceWith find put before 0 text).length ≤ text.length := by
  induction length : text.length using Nat.strong_induction_on generalizing before text with
  | _ _ ih =>
      subst length
      cases text with
      | nil => exact Nat.le_refl _
      | cons c text =>
          by_cases found : ∃ n, find before (c :: text) = some (n + 1)
          · obtain ⟨n, found⟩ := found
            have bound := within _ _ _ found
            have shorter := puts _ _ _ found
            have split : c :: text = (c :: text).take (n + 1) ++ (c :: text).drop (n + 1) :=
              (List.take_append_drop _ _).symm
            have length : ((c :: text).take (n + 1)).length = n + 1 := by
              rw [List.length_take]
              omega
            have some : (c :: text).take (n + 1) ≠ [] := List.cons_ne_nil _ _
            have here : find before ((c :: text).take (n + 1) ++ (c :: text).drop (n + 1))
                = .some ((c :: text).take (n + 1)).length := by rw [← split, found, length]
            have later := ih _ (by rw [List.length_drop]; omega) ((c :: text).take (n + 1)).getLast?
              ((c :: text).drop (n + 1)) rfl
            conv_lhs => rw [split, replaceWith_found some here]
            rw [List.length_drop] at later
            rw [List.length_append]
            omega
          · rw [replaceWith_missed fun n here => found ⟨n, here⟩, List.length_cons]
            exact Nat.succ_le_succ (ih _ (Nat.lt_succ_self _) (some c) text rfl)

/-- What is found neither begins nor ends inside a mark. -/
structure Spares (mark : List α) (find : Option α → List α → Option Nat) : Prop where
  first : ∀ before c rest, mark = before ++ c :: rest → before ≠ [] →
    ∀ text n, find before.getLast? (c :: rest ++ text) ≠ some (n + 1)
  last : ∀ before text n u p q v, find before text = some n → mark = p ++ q → p ≠ [] → q ≠ [] →
    text.take n = u ++ p → text.drop n ≠ q ++ v

/-- In the blocks a position between two blocks, or one inside a mark. -/
theorem exists_cut (mark : List α) (blocks : List (Block α)) {n : Nat} (bound : n ≤ (spelled mark blocks).length) :
    (∃ run rest, blocks = run ++ rest ∧ (spelled mark run).length = n)
      ∨ ∃ u p q v, mark = p ++ q ∧ p ≠ [] ∧ q ≠ [] ∧ (spelled mark blocks).take n = u ++ p
          ∧ (spelled mark blocks).drop n = q ++ v := by
  induction blocks generalizing n with
  | nil => exact .inl ⟨[], [], rfl, (Nat.le_zero.mp bound).symm⟩
  | cons block blocks ih =>
      rcases Nat.eq_zero_or_pos n with rfl | positive
      · exact .inl ⟨[], block :: blocks, rfl, rfl⟩
      by_cases whole : (spelled mark [block]).length ≤ n
      · have text : spelled mark (block :: blocks) = spelled mark [block] ++ spelled mark blocks := by
          rw [← spelled_append]
          rfl
        rw [text] at bound ⊢
        rw [List.length_append] at bound
        rcases ih (n := n - (spelled mark [block]).length) (by omega) with
          ⟨run, rest, rfl, length⟩ | ⟨u, p, q, v, split, hp, hq, front, back⟩
        · refine .inl ⟨block :: run, rest, rfl, ?_⟩
          have parts : spelled mark (block :: run) = spelled mark [block] ++ spelled mark run := by
            rw [← spelled_append]
            rfl
          rw [parts, List.length_append]
          omega
        · refine .inr ⟨spelled mark [block] ++ u, p, q, v, split, hp, hq, ?_, ?_⟩
          · rw [List.take_append, front, List.take_of_length_le whole, List.append_assoc]
          · rw [List.drop_append, back, List.drop_of_length_le whole, List.nil_append]
      · cases block with
        | some c =>
            rw [Nat.not_le] at whole
            exact absurd (Nat.lt_one_iff.mp whole) (by omega)
        | none =>
            have length : n < mark.length := by simpa using whole
            refine .inr ⟨[], mark.take n, mark.drop n, spelled mark blocks, (List.take_append_drop n mark).symm,
              ?_, ?_, ?_, ?_⟩
            · rw [← List.length_pos_iff, List.length_take]
              omega
            · rw [← List.length_pos_iff, List.length_drop]
              omega
            · rw [spelled_none, List.take_append_of_le_length length.le, List.nil_append]
            · rw [spelled_none, List.drop_append_of_le_length length.le]

/-- Inside a mark nothing is found. -/
theorem replaceWith_mark (spares : Spares mark find) {front rest text : List α} (split : mark = front ++ rest)
    (nonempty : front ≠ []) :
    replaceWith find put front.getLast? 0 (rest ++ text) = rest ++ replaceWith find put mark.getLast? 0 text := by
  induction rest generalizing front with
  | nil =>
      rw [split, List.append_nil]
      rfl
  | cons c rest ih =>
      have missed := spares.first front c rest split nonempty text
      rw [List.cons_append] at missed ⊢
      rw [replaceWith_missed missed]
      have later := ih (show mark = (front ++ [c]) ++ rest by rw [split, List.append_assoc]; rfl) (by simp)
      rw [List.getLast?_concat] at later
      rw [later]
      rfl

theorem replaceWith_missed_mark (spares : Spares mark find) (nonempty : mark ≠ []) {before : Option α}
    {text : List α} (missed : ∀ n, find before (mark ++ text) ≠ some (n + 1)) :
    replaceWith find put before 0 (mark ++ text) = mark ++ replaceWith find put mark.getLast? 0 text := by
  obtain ⟨c, rest, split⟩ := List.exists_cons_of_ne_nil nonempty
  have inside : replaceWith find put (some c) 0 (rest ++ text)
      = rest ++ replaceWith find put mark.getLast? 0 text :=
    replaceWith_mark spares (show mark = [c] ++ rest from split) (List.cons_ne_nil _ _)
  have whole : mark ++ text = c :: (rest ++ text) := by
    rw [split]
    rfl
  rw [whole] at missed ⊢
  rw [replaceWith_missed missed]
  refine (congrArg (c :: ·) inside).trans ?_
  rw [← List.cons_append, ← split]

theorem masks_replaceWith (nonempty : mark ≠ []) (within : Within find) (spares : Spares mark find)
    (puts : ∀ m, put m = m ∨ put m = mark) (before : Option α) (old : List (Block α)) :
    ∃ new, replaceWith find put before 0 (spelled mark old) = spelled mark new ∧ Masks old new := by
  induction length : old.length using Nat.strong_induction_on generalizing before old with
  | _ _ ih =>
      subst length
      cases old with
      | nil => exact ⟨[], rfl, .done⟩
      | cons block old =>
          by_cases found : ∃ n, find before (spelled mark (block :: old)) = some (n + 1)
          · obtain ⟨n, found⟩ := found
            have bound := within _ _ _ found
            rcases exists_cut mark (block :: old) bound with
              ⟨run, rest, split, length⟩ | ⟨u, p, q, v, split, hp, hq, front, back⟩
            · rw [split, spelled_append] at found ⊢
              have some : spelled mark run ≠ [] := by
                rw [← List.length_pos_iff]
                omega
              have shorter : rest.length < (block :: old).length := by
                rw [split, List.length_append]
                have : run ≠ [] := by
                  rintro rfl
                  exact some rfl
                have := List.length_pos_iff.mpr this
                omega
              obtain ⟨new, text, masks⟩ := ih _ shorter (spelled mark run).getLast? rest rfl
              rw [replaceWith_found some (by rw [found, length]), text]
              rcases puts (spelled mark run) with same | marked
              · exact ⟨run ++ new, by rw [same, spelled_append], masks.append_left run⟩
              · refine ⟨none :: new, by rw [marked, spelled_none], masks.mask ?_⟩
                rintro rfl
                exact some rfl
            · exact absurd back (spares.last _ _ _ u p q v found split hp hq front)
          · have missed : ∀ n, find before (spelled mark (block :: old)) ≠ some (n + 1) :=
              fun n here => found ⟨n, here⟩
            cases block with
            | some c =>
                obtain ⟨new, text, masks⟩ := ih _ (Nat.lt_succ_self _) (some c) old rfl
                rw [spelled_some] at missed ⊢
                exact ⟨some c :: new, by rw [replaceWith_missed missed, text]; rfl, masks.keep _⟩
            | none =>
                obtain ⟨new, text, masks⟩ := ih _ (Nat.lt_succ_self _) mark.getLast? old rfl
                rw [spelled_none] at missed ⊢
                exact ⟨none :: new, by rw [replaceWith_missed_mark spares nonempty missed, text]; rfl,
                  masks.keep _⟩

/-- Over a text without marks: what would have been found wherever it stands is gone. -/
theorem masks_replaceWith_units (within : Within find) (puts : ∀ m, put m = mark) (before : Option α)
    (text : List α) :
    ∃ new, replaceWith find put before 0 text = spelled mark new ∧ Masks (text.map some) new
      ∧ ∀ s, (∀ before rest, ∃ n, find before (s ++ rest) = some (n + 1)) → s ≠ [] →
          ¬ s.map some <:+: new := by
  induction length : text.length using Nat.strong_induction_on generalizing before text with
  | _ _ ih =>
      subst length
      cases text with
      | nil => exact ⟨[], rfl, .done, fun s _ nonempty part => nonempty (by simpa using part)⟩
      | cons c text =>
          by_cases found : ∃ n, find before (c :: text) = some (n + 1)
          · obtain ⟨n, found⟩ := found
            have bound := within _ _ _ found
            obtain ⟨m, rest, split, length⟩ : ∃ m rest, c :: text = m ++ rest ∧ m.length = n + 1 :=
              ⟨_, _, (List.take_append_drop (n + 1) _).symm, by rw [List.length_take]; omega⟩
            have shorter : rest.length < (c :: text).length := by
              rw [split, List.length_append]
              omega
            have some : m ≠ [] := by
              rintro rfl
              cases length
            obtain ⟨new, same, masks, gone⟩ := ih _ shorter m.getLast? rest rfl
            rw [split] at found ⊢
            refine ⟨none :: new, ?_, ?_, fun s always nonempty part => ?_⟩
            · rw [replaceWith_found some (by rw [found, length]), puts, same, spelled_none]
            · rw [List.map_append]
              exact masks.mask (by simpa using some)
            · rcases List.infix_cons_iff.mp part with first | later
              · obtain ⟨d, s, rfl⟩ := List.exists_cons_of_ne_nil nonempty
                cases (List.cons_prefix_cons.mp first).1
              · exact gone s always nonempty later
          · obtain ⟨new, same, masks, gone⟩ := ih _ (Nat.lt_succ_self _) (some c) text rfl
            have missed : ∀ n, find before (c :: text) ≠ some (n + 1) := fun n here => found ⟨n, here⟩
            refine ⟨some c :: new, by rw [replaceWith_missed missed, same, spelled_some], masks.keep _,
              fun s always nonempty part => ?_⟩
            rcases List.infix_cons_iff.mp part with first | later
            · have here : s.map some <+: (c :: text).map some := (masks.keep (some c)).prefix_run first
              obtain ⟨rest, whole⟩ := (List.prefix_map_iff_of_injective (fun _ _ => Option.some.inj)).mp here
              rw [← whole] at found
              exact found (always before rest)
            · exact gone s always nonempty later

end Replacing

end GhcpConsole
