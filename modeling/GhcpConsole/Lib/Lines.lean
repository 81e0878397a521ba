import GhcpConsole.Lib.CodeUnits

/-!
# Lines that begin with a mark

A text is made of parts, one after another. Where no line of a part begins with the mark and the mark
cannot reach from one part into the next, no line of the whole text does.
-/

namespace GhcpConsole

def lineFeed : CodeUnit := 0xA

/-- No line after the first one begins with the mark. -/
def Unmarked (mark text : JsString) : Prop := ¬ lineFeed :: mark <:+: text

theorem JsString.inLines_cons (first : JsString) {parts : List JsString} (h : parts ≠ []) :
    inLines (first :: parts) = first ++ lineFeed :: inLines parts := by
  rw [inLines, List.intercalate_cons_of_ne_nil h, List.append_assoc]
  rfl

theorem JsString.inLines_append {before after : List JsString} (hbefore : before ≠ [])
    (hafter : after ≠ []) :
    inLines (before ++ after) = inLines before ++ lineFeed :: inLines after := by
  induction before with
  | nil => exact absurd rfl hbefore
  | cons first before ih =>
      cases before with
      | nil =>
          rw [List.singleton_append, inLines_cons first hafter, inLines, inLines,
            List.intercalate_singleton]
      | cons next before =>
          rw [List.cons_append, inLines_cons first (by simp), inLines_cons first (by simp),
            ih (List.cons_ne_nil _ _), List.append_assoc, List.cons_append]

section Unmarked

variable {mark u v : JsString} {c e : CodeUnit}

theorem Unmarked.of_infix (h : Unmarked mark v) (part : u <:+: v) : Unmarked mark u :=
  fun found => h (found.trans part)

theorem unmarked_of_absent (h : ¬ mark <:+: u) : Unmarked mark (lineFeed :: u) := by
  intro found
  rcases List.infix_cons_iff.mp found with first | later
  · exact h (List.cons_prefix_cons.mp first).2.isInfix
  · exact h ((List.suffix_cons _ _).isInfix.trans later)

theorem unmarked_of_not_mem (h : lineFeed ∉ u) : Unmarked mark u :=
  fun found => h (found.subset List.mem_cons_self)

theorem Unmarked.cons (h : Unmarked mark u) (hc : c ≠ lineFeed) : Unmarked mark (c :: u) := by
  intro found
  rcases List.infix_cons_iff.mp found with first | later
  · exact hc (List.cons_prefix_cons.mp first).1.symm
  · exact h later

theorem Unmarked.append_of_no_lineFeed (h : Unmarked mark v) (hu : lineFeed ∉ u) :
    Unmarked mark (u ++ v) := by
  induction u with
  | nil => exact h
  | cons c u ih =>
      rw [List.mem_cons, not_or] at hu
      exact (ih hu.2).cons (Ne.symm hu.1)

/-- A line that begins with another character. -/
theorem Unmarked.lineFeed_cons (h : Unmarked (e :: mark) (c :: u)) (hc : c ≠ e) :
    Unmarked (e :: mark) (lineFeed :: c :: u) := by
  intro found
  rcases List.infix_cons_iff.mp found with first | later
  · have second := (List.cons_prefix_cons.mp first).2
    exact hc (List.cons_prefix_cons.mp second).1.symm
  · exact h later

/-- The mark does not reach across a character that is not in it. -/
theorem prefix_of_append_cons {mark : JsString} (hc : c ∉ mark) (h : mark <+: u ++ c :: v) :
    mark <+: u := by
  induction u generalizing mark with
  | nil =>
      cases mark with
      | nil => exact List.prefix_rfl
      | cons e mark =>
          rw [List.nil_append] at h
          exact absurd (List.cons_prefix_cons.mp h).1 (fun same => hc (by rw [same]; simp))
  | cons d u ih =>
      cases mark with
      | nil => exact List.nil_prefix
      | cons e mark =>
          rw [List.cons_append] at h
          obtain ⟨rfl, rest⟩ := List.cons_prefix_cons.mp h
          rw [List.mem_cons, not_or] at hc
          exact List.cons_prefix_cons.mpr ⟨rfl, ih hc.2 rest⟩

theorem infix_append_cons {mark : JsString} (hc : c ∉ mark) (h : mark <:+: u ++ c :: v) :
    mark <:+: u ∨ mark <:+: v := by
  induction u with
  | nil =>
      rcases List.infix_cons_iff.mp h with first | later
      · cases mark with
        | nil => exact .inl List.infix_rfl
        | cons e mark =>
            exact absurd (List.cons_prefix_cons.mp first).1 (fun same => hc (by rw [same]; simp))
      · exact .inr later
  | cons d u ih =>
      rw [List.cons_append] at h
      rcases List.infix_cons_iff.mp h with first | later
      · rw [← List.cons_append] at first
        exact .inl (prefix_of_append_cons hc first).isInfix
      · exact (ih later).imp_left fun here => here.trans (List.suffix_cons _ _).isInfix

theorem Unmarked.append_cons (hu : Unmarked mark u) (hv : Unmarked mark v) (hc : c ∉ lineFeed :: mark) :
    Unmarked mark (u ++ c :: v) :=
  fun found => (infix_append_cons hc found).elim hu hv

/-- A line feed begins a new line. -/
theorem Unmarked.append_lineFeed (hu : Unmarked mark u) (hv : Unmarked mark (lineFeed :: v))
    (hmark : lineFeed ∉ mark) : Unmarked mark (u ++ lineFeed :: v) := by
  intro found
  induction u with
  | nil => exact hv found
  | cons c u ih =>
      rw [List.cons_append] at found
      rcases List.infix_cons_iff.mp found with first | later
      · obtain ⟨same, rest⟩ := List.cons_prefix_cons.mp first
        refine hu (List.infix_cons_iff.mpr (.inl ?_))
        exact List.cons_prefix_cons.mpr ⟨same, prefix_of_append_cons hmark rest⟩
      · exact ih (hu.of_infix (List.suffix_cons _ _).isInfix) later

/-- Texts no line of which begins with the character, one after the other. -/
theorem Unmarked.lineFeed_append (hu : Unmarked [e] (lineFeed :: u)) (hv : Unmarked [e] (lineFeed :: v)) :
    Unmarked [e] (lineFeed :: (u ++ v)) := by
  suffices step : ∀ x, Unmarked [e] (x :: u) → Unmarked [e] (x :: (u ++ v)) from step lineFeed hu
  clear hu
  induction u with
  | nil =>
      intro x _ found
      rcases List.infix_cons_iff.mp found with first | later
      · obtain ⟨rfl, second⟩ := List.cons_prefix_cons.mp first
        exact hv found
      · exact hv (later.trans (List.suffix_cons _ _).isInfix)
  | cons c u ih =>
      intro x hu found
      rcases List.infix_cons_iff.mp found with first | later
      · obtain ⟨rfl, second⟩ := List.cons_prefix_cons.mp first
        rw [List.cons_append] at second
        obtain ⟨rfl, _⟩ := List.cons_prefix_cons.mp second
        exact hu ⟨[], u, rfl⟩
      · exact ih c (hu.of_infix (List.suffix_cons _ _).isInfix) later

/-- The first line that begins with the mark. -/
theorem indexOf_mark (h : Unmarked mark u) (hmark : lineFeed ∉ mark) :
    indexOf (lineFeed :: mark) (u ++ lineFeed :: (mark ++ v)) = some u.length := by
  induction u with
  | nil => exact indexOf_of_prefix ⟨v, rfl⟩
  | cons c u ih =>
      have other : ¬ lineFeed :: mark <+: c :: (u ++ lineFeed :: (mark ++ v)) := by
        intro first
        obtain ⟨rfl, rest⟩ := List.cons_prefix_cons.mp first
        exact h (List.cons_prefix_cons.mpr ⟨rfl, prefix_of_append_cons hmark rest⟩).isInfix
      rw [List.cons_append, indexOf, if_neg other, ih (h.of_infix (List.suffix_cons _ _).isInfix),
        Option.map_some, List.length_cons]

/-- The mark does not end with this character. -/
theorem Unmarked.concat (h : Unmarked mark u) (hc : (lineFeed :: mark).getLast? ≠ some c) :
    Unmarked mark (u ++ [c]) := by
  intro found
  rcases List.infix_concat_iff.mp found with last | before
  · obtain ⟨front, whole⟩ := last
    refine hc ?_
    have ends := congrArg List.getLast? whole
    rw [List.getLast?_append_of_ne_nil _ (List.cons_ne_nil _ _), List.getLast?_concat] at ends
    exact ends
  · exact h before

section ReplaceAll

variable {needle replacement text : JsString}

theorem prefix_of_prefix_replaceAll (other : ∀ x ∈ replacement, x ∉ needle) (some : replacement ≠ [])
    (h : needle <+: JsString.replaceAll c replacement text) : needle <+: text := by
  induction text generalizing needle with
  | nil => exact h
  | cons d text ih =>
      cases needle with
      | nil => exact List.nil_prefix
      | cons e needle =>
          rw [JsString.replaceAll, List.flatMap_cons] at h
          split at h
          · obtain ⟨x, rest, rfl⟩ := List.exists_cons_of_ne_nil some
            refine absurd ?_ (other x List.mem_cons_self)
            rw [(List.cons_prefix_cons.mp h).1]
            exact List.mem_cons_self
          · obtain ⟨same, later⟩ := List.cons_prefix_cons.mp h
            exact List.cons_prefix_cons.mpr ⟨same, ih (fun x mem inNeedle =>
              other x mem (List.mem_cons_of_mem _ inNeedle)) later⟩

theorem infix_of_infix_append (other : ∀ x ∈ u, x ∉ needle) (some : needle ≠ []) (h : needle <:+: u ++ v) :
    needle <:+: v := by
  induction u with
  | nil => exact h
  | cons x u ih =>
      rcases List.infix_cons_iff.mp h with first | later
      · obtain ⟨e, rest, rfl⟩ := List.exists_cons_of_ne_nil some
        refine absurd ?_ (other x List.mem_cons_self)
        rw [← (List.cons_prefix_cons.mp first).1]
        exact List.mem_cons_self
      · exact ih (fun y mem => other y (List.mem_cons_of_mem _ mem)) later

/-- What is not in a text is not there after characters have been replaced by others. -/
theorem infix_of_infix_replaceAll (other : ∀ x ∈ replacement, x ∉ needle) (some : replacement ≠ [])
    (hneedle : needle ≠ []) (h : needle <:+: JsString.replaceAll c replacement text) : needle <:+: text := by
  induction text with
  | nil => exact h
  | cons d text ih =>
      rw [JsString.replaceAll, List.flatMap_cons] at h
      split at h
      · exact (ih (infix_of_infix_append other hneedle h)).trans (List.suffix_cons _ _).isInfix
      · rcases List.infix_cons_iff.mp h with first | later
        · obtain ⟨e, rest, rfl⟩ := List.exists_cons_of_ne_nil hneedle
          obtain ⟨same, later⟩ := List.cons_prefix_cons.mp first
          refine (List.cons_prefix_cons.mpr ⟨same, prefix_of_prefix_replaceAll (fun x mem inRest =>
            other x mem (List.mem_cons_of_mem _ inRest)) some later⟩).isInfix
        · exact (ih later).trans (List.suffix_cons _ _).isInfix

end ReplaceAll

theorem Unmarked.weaken (h : Unmarked [e] u) : Unmarked (e :: mark) u :=
  fun found => h (List.IsInfix.trans ⟨[], mark, rfl⟩ found)

end Unmarked

end GhcpConsole
