import GhcpConsole.Diagnostics.FailureSummary

/-!
# What normalising leaves as it is

A text is tidy if it has no control or format characters, no separators but single spaces and no space at
either end. Normalising leaves a tidy text alone. What it makes of a text is tidy but for one thing: where a
format character stood between the halves of a surrogate pair, the pair may itself be one, and a value that it
stands in is cut (`Cut`).
-/

namespace GhcpConsole.Diagnostics

def space : CodeUnit := codeUnit ' '

structure Tidy (text : JsString) : Prop where
  format : ∀ u ∈ text, isFormat u.toNat = false
  blank : ∀ u ∈ text, isControl u = true ∨ isSeparator u = true → u = space
  pairs : text.IsChain fun a b => JsString.joins a b = false
  apart : text.IsChain fun a b => ¬ (a = space ∧ b = space)
  first : text.head? ≠ some space
  last : text.getLast? ≠ some space

section Blank

variable {u : CodeUnit} {text : JsString}

theorem isWhiteSpace_cases (h : isWhiteSpace u = true) :
    (isControl u = true ∨ isSeparator u = true) ∨ isFormat u.toNat = true := by
  by_cases mark : u = 0xFEFF
  · subst mark
    exact .inr rfl
  simp only [isWhiteSpace, isControl, isSeparator, Bool.or_eq_true, Bool.and_eq_true, decide_eq_true_eq,
    mark, or_false, UInt16.le_iff_toNat_le] at h ⊢
  refine .inl ?_
  simp only [show (9 : UInt16).toNat = 9 from rfl, show (13 : UInt16).toNat = 13 from rfl,
    show (0x1F : UInt16).toNat = 0x1F from rfl] at h ⊢
  rcases h with (((((((((h | h) | h) | h) | h) | h) | h) | h) | h) | h)
  · exact .inl (.inl (by omega))
  all_goals simp only [h, or_true, true_or, and_self]

theorem isWhiteSpace_space : isWhiteSpace space = true := by decide

theorem Tidy.eq_space (h : Tidy text) (mem : u ∈ text) (white : isWhiteSpace u = true) : u = space := by
  rcases isWhiteSpace_cases white with blank | format
  · exact h.blank u mem blank
  · rw [h.format u mem] at format
    cases format

end Blank

section Steps

variable {text : JsString}

theorem collapse_eq_self {inRun : Bool} (white : ∀ u ∈ text, isWhiteSpace u = true → u = space)
    (apart : text.IsChain fun a b => ¬ (a = space ∧ b = space)) (first : inRun = true → text.head? ≠ some space) :
    collapse inRun text = text := by
  induction text generalizing inRun with
  | nil => rfl
  | cons u text ih =>
      rw [List.isChain_cons] at apart
      rw [List.forall_mem_cons] at white
      rw [collapse]
      split
      · rename_i isWhite
        obtain rfl := white.1 isWhite
        rw [if_neg fun inRun => first inRun rfl]
        refine congrArg _ (ih white.2 apart.2 fun _ next => ?_)
        exact apart.1 space next ⟨rfl, rfl⟩
      · exact congrArg _ (ih white.2 apart.2 (by simp))

theorem spaced_eq_self (blank : ∀ u ∈ text, isControl u = true ∨ isSeparator u = true → u = space) :
    spaced text = text := by
  refine (List.map_congr_left fun u mem => ?_).trans (List.map_id text)
  split
  · rename_i isBlank
    rw [Bool.or_eq_true] at isBlank
    exact (blank u mem isBlank).symm
  · rfl

theorem Tidy.normalize_eq_self (h : Tidy text) : normalize text = text := by
  have white : ∀ u ∈ text, isWhiteSpace u = true → u = space := fun u mem => h.eq_space mem
  have kept : ∀ u ∈ text, u ≠ space → isWhiteSpace u = false :=
    fun u mem other => Bool.eq_false_iff.mpr fun isWhite => other (white u mem isWhite)
  rw [normalize, JsString.removeFormat_eq_self_iff.mpr ⟨h.format, h.pairs⟩, spaced_eq_self h.blank,
    collapse_eq_self white h.apart (by simp)]
  refine JsString.trim_eq_self (fun u mem => kept u (List.mem_of_mem_head? mem) ?_)
    fun u mem => kept u (List.mem_of_getLast? mem) ?_
  · rintro rfl
    exact h.first mem
  · rintro rfl
    exact h.last mem

theorem length_collapse {inRun : Bool} : (collapse inRun text).length ≤ text.length := by
  induction text generalizing inRun with
  | nil => exact Nat.le_refl _
  | cons u text ih =>
      rw [collapse]
      split
      · split
        · exact ih.trans (Nat.le_succ _)
        · exact Nat.succ_le_succ ih
      · exact Nat.succ_le_succ ih

theorem length_normalize : (normalize text).length ≤ text.length := by
  calc (normalize text).length ≤ (collapse false (spaced (JsString.removeFormat text))).length :=
        (JsString.infix_trim _).length_le
    _ ≤ (spaced (JsString.removeFormat text)).length := length_collapse
    _ = (JsString.removeFormat text).length := List.length_map _
    _ ≤ text.length := (JsString.removeFormat_sublist text).length_le

end Steps

section Normalized

variable {text : JsString} {u : CodeUnit}

theorem mem_collapse {inRun : Bool} (mem : u ∈ collapse inRun text) :
    u = space ∨ u ∈ text ∧ isWhiteSpace u = false := by
  induction text generalizing inRun with
  | nil => cases mem
  | cons c text ih =>
      have later : ∀ {inRun}, u ∈ collapse inRun text → u = space ∨ u ∈ c :: text ∧ isWhiteSpace u = false :=
        fun mem => (ih mem).imp_right fun found => ⟨List.mem_cons_of_mem _ found.1, found.2⟩
      rw [collapse] at mem
      split at mem
      · split at mem
        · exact later mem
        · rcases List.mem_cons.mp mem with rfl | mem
          · exact .inl rfl
          · exact later mem
      · rename_i other
        rcases List.mem_cons.mp mem with rfl | mem
        · exact .inr ⟨List.mem_cons_self, Bool.eq_false_iff.mpr other⟩
        · exact later mem

/-- Between two spaces there is something else. -/
theorem collapse_apart {inRun : Bool} : (collapse inRun text).IsChain (fun a b => ¬ (a = space ∧ b = space))
    ∧ (inRun = true → (collapse inRun text).head? ≠ some space) := by
  induction text generalizing inRun with
  | nil => exact ⟨.nil, nofun⟩
  | cons c text ih =>
      rw [collapse]
      split
      · split
        · exact ⟨ih.1, fun _ => ih.2 rfl⟩
        · rename_i outside
          refine ⟨List.isChain_cons.mpr ⟨fun next first both => ?_, ih.1⟩, fun inRun => absurd inRun outside⟩
          exact ih.2 rfl (both.2 ▸ first)
      · rename_i other
        have isOther : c ≠ space := by
          rintro rfl
          exact other isWhiteSpace_space
        exact ⟨List.isChain_cons.mpr ⟨fun _ _ both => isOther both.1, ih.1⟩,
          fun _ first => isOther (Option.some.inj first)⟩

theorem spaced_blank (mem : u ∈ spaced text) (blank : isControl u = true ∨ isSeparator u = true) : u = space := by
  obtain ⟨c, _, rfl⟩ := List.mem_map.mp mem
  by_cases other : (isControl c || isSeparator c) = true
  · exact if_pos other
  · rw [if_neg other] at blank
    exact absurd (Bool.or_eq_true .. ▸ blank) other

theorem not_joins_space (a : CodeUnit) : JsString.joins a space = false ∧ JsString.joins space a = false := by
  refine ⟨?_, rfl⟩
  rw [JsString.joins, show isLowSurrogate space = false by decide, Bool.and_false, Bool.false_and]

theorem spaced_pairs (h : text.IsChain fun a b => JsString.joins a b = false) :
    (spaced text).IsChain fun a b => JsString.joins a b = false := by
  rw [spaced, List.isChain_map]
  refine h.imp fun a b apart => ?_
  split
  · exact (not_joins_space _).2
  · split
    · exact (not_joins_space _).1
    · exact apart

theorem head?_collapse (mem : u ∈ (collapse false text).head?) : u = space ∨ u ∈ text.head? := by
  cases text with
  | nil => cases mem
  | cons c text =>
      rw [collapse] at mem
      split at mem
      · exact .inl (Option.some.inj mem).symm
      · exact .inr mem

theorem collapse_pairs {inRun : Bool} (h : text.IsChain fun a b => JsString.joins a b = false) :
    (collapse inRun text).IsChain fun a b => JsString.joins a b = false := by
  induction text generalizing inRun with
  | nil => exact .nil
  | cons c text ih =>
      rw [List.isChain_cons] at h
      rw [collapse]
      split
      · split
        · exact ih h.2
        · exact List.isChain_cons.mpr ⟨fun next _ => (not_joins_space next).2, ih h.2⟩
      · refine List.isChain_cons.mpr ⟨fun next first => ?_, ih h.2⟩
        rcases head?_collapse first with rfl | first
        · exact (not_joins_space c).1
        · exact h.1 next first

theorem isChain_part {R : CodeUnit → CodeUnit → Prop} {part text : JsString} (h : text.IsChain R)
    (inText : part <:+: text) : part.IsChain R := by
  obtain ⟨before, after, rfl⟩ := inText
  exact h.left_of_append.right_of_append

/-- In a text of characters no new format character comes about. -/
theorem removeFormat_normalize (chars : List Char) :
    JsString.removeFormat (normalize (chars.flatMap Char.units)) = normalize (chars.flatMap Char.units) := by
  have removed := JsString.removeFormat_eq_self_iff.mp (JsString.removeFormat_removeFormat chars)
  refine JsString.removeFormat_eq_self_iff.mpr ⟨fun u mem => ?_, ?_⟩
  · rcases mem_collapse ((JsString.infix_trim _).subset mem) with rfl | found
    · decide
    · obtain ⟨c, inText, rfl⟩ := List.mem_map.mp found.1
      split
      · decide
      · exact removed.1 c inText
  · exact isChain_part (collapse_pairs (spaced_pairs removed.2)) (JsString.infix_trim _)

end Normalized

/-! ## Stretches of a text -/

/-- What normalising leaves of a text before the ends are trimmed. -/
def squeezed (text : JsString) : JsString := collapse false (spaced (JsString.removeFormat text))

theorem normalize_eq (text : JsString) : normalize text = JsString.trim (squeezed text) := rfl

/-- Normalising takes something out of a stretch of the text, and makes it the value. -/
def Cut (value text : JsString) : Prop :=
  ∃ stretch, stretch <:+: text ∧ JsString.removeFormat stretch ≠ stretch ∧ normalize stretch = value

section Stretches

variable {text value first second plain : JsString} {inRun : Bool}

theorem exists_collapse_append (inRun : Bool) (first : JsString) :
    ∃ later, ∀ second, collapse inRun (first ++ second) = collapse inRun first ++ collapse later second := by
  induction first generalizing inRun with
  | nil => exact ⟨inRun, fun _ => rfl⟩
  | cons u first ih =>
      by_cases white : isWhiteSpace u = true
      · obtain ⟨later, split⟩ := ih true
        refine ⟨later, fun second => ?_⟩
        rw [List.cons_append, collapse, collapse, if_pos white, if_pos white, split]
        split
        · rfl
        · rfl
      · obtain ⟨later, split⟩ := ih false
        refine ⟨later, fun second => ?_⟩
        rw [List.cons_append, collapse, collapse, if_neg white, if_neg white, split]
        rfl

theorem collapse_plain_append (some : plain ≠ []) (h : ∀ u ∈ plain, isWhiteSpace u = false) :
    collapse inRun (plain ++ text) = plain ++ collapse false text := by
  induction plain generalizing inRun with
  | nil => exact absurd rfl some
  | cons u plain ih =>
      rw [List.forall_mem_cons] at h
      rw [List.cons_append, collapse, if_neg (by simp [h.1])]
      cases plain with
      | nil => rfl
      | cons v plain =>
          rw [ih (List.cons_ne_nil v plain) h.2]
          rfl

theorem exists_of_collapse_append (h : collapse inRun text = first ++ second) :
    ∃ front back later, text = front ++ back ∧ collapse inRun front = first ∧ collapse later back = second := by
  induction text generalizing inRun first with
  | nil =>
      obtain ⟨rfl, rfl⟩ := List.append_eq_nil_iff.mp h.symm
      exact ⟨[], [], false, rfl, rfl, rfl⟩
  | cons u text ih =>
      by_cases passed : isWhiteSpace u = true ∧ inRun = true
      · have skip : ∀ rest, collapse inRun (u :: rest) = collapse true rest := fun rest => by
          rw [collapse, if_pos passed.1, if_pos passed.2]
        rw [skip] at h
        obtain ⟨front, back, later, rfl, isFirst, isSecond⟩ := ih h
        exact ⟨u :: front, back, later, rfl, by rw [skip, isFirst], isSecond⟩
      · obtain ⟨c, next, put⟩ : ∃ c next, ∀ rest, collapse inRun (u :: rest) = c :: collapse next rest := by
          by_cases white : isWhiteSpace u = true
          · refine ⟨codeUnit ' ', true, fun rest => ?_⟩
            rw [collapse, if_pos white, if_neg fun run => passed ⟨white, run⟩]
          · refine ⟨u, false, fun rest => ?_⟩
            rw [collapse, if_neg white]
        cases first with
        | nil => exact ⟨[], u :: text, inRun, rfl, rfl, h⟩
        | cons d first =>
            rw [put, List.cons_append, List.cons.injEq] at h
            obtain ⟨rfl, h⟩ := h
            obtain ⟨front, back, later, rfl, isFirst, isSecond⟩ := ih h
            exact ⟨u :: front, back, later, rfl, by rw [put, isFirst], isSecond⟩

/-- A space in front makes no difference. -/
theorem trim_collapse (inRun : Bool) : JsString.trim (collapse inRun text) = JsString.trim (collapse false text) := by
  cases inRun with
  | false => rfl
  | true =>
      cases text with
      | nil => rfl
      | cons u text =>
          rw [collapse, collapse]
          split
          · rfl
          · rfl

theorem spaced_append (first second : JsString) : spaced (first ++ second) = spaced first ++ spaced second :=
  List.map_append

theorem exists_of_spaced_append (h : spaced text = first ++ second) :
    ∃ front back, text = front ++ back ∧ spaced front = first ∧ spaced back = second :=
  List.map_eq_append_iff.mp h

/-- What stands together in a text that was squeezed was a stretch of it. -/
theorem exists_of_infix_squeezed (part : value <:+: squeezed text) (trimmed : JsString.trim value = value) :
    ∃ stretch, stretch <:+: text ∧ normalize stretch = value := by
  obtain ⟨u, v, split⟩ := part
  rw [List.append_assoc] at split
  obtain ⟨_, _, later, whole, _, isRest⟩ := exists_of_collapse_append split.symm
  obtain ⟨_, _, _, rfl, isValue, _⟩ := exists_of_collapse_append isRest
  obtain ⟨_, _, left, _, isRest⟩ := exists_of_spaced_append whole
  obtain ⟨_, _, rfl, rfl, _⟩ := exists_of_spaced_append isRest
  obtain ⟨front, _, rfl, _, isRest⟩ := JsString.exists_of_removeFormat_append left
  obtain ⟨stretch, back, rfl, rfl, _⟩ := JsString.exists_of_removeFormat_append isRest
  refine ⟨stretch, ⟨front, back, List.append_assoc _ _ _⟩, ?_⟩
  rw [normalize, ← trim_collapse later, isValue, trimmed]

/-- A mark divides a text. -/
theorem squeezed_redacted (first second : JsString) :
    squeezed (first ++ (redacted ++ second)) = squeezed first ++ (redacted ++ squeezed second) := by
  have format : JsString.removeFormat (redacted ++ second) = redacted ++ JsString.removeFormat second :=
    JsString.removeFormat_plain_append (by decide)
  have same : spaced redacted = redacted := by decide
  have white : ∀ u ∈ redacted, isWhiteSpace u = false := by decide
  obtain ⟨later, split⟩ := exists_collapse_append false (spaced (JsString.removeFormat first))
  rw [squeezed, JsString.removeFormat_append (by rintro _ _ _ ⟨⟩; exact .inr rfl), format, spaced_append, spaced_append, same,
    split, collapse_plain_append (by decide) white]
  rfl

/-- In a text that was normalised a stretch without format characters is only trimmed. -/
theorem normalize_stretch (part : value <:+: normalize text) (same : JsString.removeFormat value = value) :
    normalize value = JsString.trim value := by
  have blank : ∀ u ∈ value, isControl u = true ∨ isSeparator u = true → u = space := by
    intro u mem isBlank
    rcases mem_collapse ((JsString.infix_trim _).subset (part.subset mem)) with isSpace | found
    · exact isSpace
    · exact spaced_blank found.1 isBlank
  have white : ∀ u ∈ value, isWhiteSpace u = true → u = space := by
    intro u mem isWhite
    rcases isWhiteSpace_cases isWhite with isBlank | format
    · exact blank u mem isBlank
    · rw [(JsString.removeFormat_eq_self_iff.mp same).1 u mem] at format
      cases format
  have apart : value.IsChain fun a b => ¬ (a = space ∧ b = space) :=
    isChain_part collapse_apart.1 (part.trans (JsString.infix_trim _))
  rw [normalize, same, spaced_eq_self blank, collapse_eq_self white apart (by simp)]

theorem trim_normalize (text : JsString) : JsString.trim (normalize text) = normalize text :=
  JsString.trim_eq_self (fun _ => JsString.head?_trim) fun _ => JsString.getLast?_trim

/-- Where there is no format character, no value is cut. -/
theorem not_cut (h : JsString.removeFormat text = text) : ¬ Cut value text := by
  rintro ⟨stretch, part, changed, _⟩
  have format := JsString.removeFormat_eq_self_iff.mp h
  exact changed (JsString.removeFormat_eq_self_iff.mpr
    ⟨fun u mem => format.1 u (part.subset mem), isChain_part format.2 part⟩)

/-- The value neither begins with the second half of a surrogate pair nor ends with the first one. -/
def WholePairs (value : JsString) : Prop :=
  (∀ u ∈ value.head?, isLowSurrogate u = false) ∧ ∀ u ∈ value.getLast?, isHighSurrogate u = false

theorem surrogate_plain {u : CodeUnit} (h : isHighSurrogate u = true ∨ isLowSurrogate u = true) :
    isControl u = false ∧ isSeparator u = false ∧ isWhiteSpace u = false := by
  have bounds : 0xD800 ≤ u.toNat ∧ u.toNat ≤ 0xDFFF := by
    simp only [isLowSurrogate, isHighSurrogate, Bool.and_eq_true, decide_eq_true_eq, UInt16.le_iff_toNat_le] at h
    simp at h
    omega
  have notBlank : ¬ (isControl u = true ∨ isSeparator u = true) := by
    intro blank
    simp only [isControl, isSeparator, Bool.or_eq_true, Bool.and_eq_true, decide_eq_true_eq,
      UInt16.le_iff_toNat_le, ← UInt16.toNat_inj] at blank
    simp at blank
    omega
  rw [not_or, Bool.not_eq_true, Bool.not_eq_true] at notBlank
  refine ⟨notBlank.1, notBlank.2, Bool.eq_false_iff.mpr fun white => ?_⟩
  rcases isWhiteSpace_cases white with blank | format
  · simp [notBlank] at blank
  · rw [JsString.surrogate_not_format h] at format
    cases format

theorem spaced_surrogate {u : CodeUnit} (h : isHighSurrogate u = true ∨ isLowSurrogate u = true) :
    spaced [u] = [u] := by
  obtain ⟨control, separator, _⟩ := surrogate_plain h
  simp [spaced, control, separator]

theorem squeezed_low_cons {u : CodeUnit} (h : isLowSurrogate u = true) : squeezed (u :: text) = u :: squeezed text := by
  have white := (surrogate_plain (.inr h)).2.2
  rw [squeezed, JsString.removeFormat_cons (JsString.isLowSurrogate_not_high h),
    JsString.surrogate_not_format (.inr h), if_neg Bool.false_ne_true, ← List.singleton_append, spaced_append,
    spaced_surrogate (.inr h), collapse_plain_append (List.cons_ne_nil u []) (by simpa using white)]
  rfl

theorem squeezed_concat_high {u : CodeUnit} (h : isHighSurrogate u = true) :
    squeezed (text ++ [u]) = squeezed text ++ [u] := by
  have white := (surrogate_plain (.inl h)).2.2
  have notLow : isLowSurrogate u = false := by
    rw [← Bool.not_eq_true]
    intro low
    rw [JsString.isLowSurrogate_not_high low] at h
    cases h
  have single : JsString.removeFormat [u] = [u] := by
    rw [JsString.removeFormat, JsString.surrogate_not_format (.inl h)]
    rfl
  obtain ⟨later, split⟩ := exists_collapse_append false (spaced (JsString.removeFormat text))
  rw [squeezed, JsString.removeFormat_append (by rintro _ _ _ ⟨⟩; exact .inr notLow), single, spaced_append,
    spaced_surrogate (.inl h), split, collapse, if_neg (by simp [white])]
  rfl

/-- A half of a surrogate pair at an end is still there. -/
theorem wholePairs_of_normalize (some : normalize text ≠ []) (whole : WholePairs (normalize text)) :
    WholePairs text := by
  constructor
  · intro u first
    obtain ⟨text, rfl⟩ := List.head?_eq_some_iff.mp (Option.mem_def.mp first)
    rw [← Bool.not_eq_true]
    intro low
    rw [normalize_eq, squeezed_low_cons low] at some whole
    have kept := JsString.head?_trim_of some (by rintro _ ⟨⟩; exact (surrogate_plain (.inr low)).2.2)
    rw [whole.1 u kept] at low
    cases low
  · intro u last
    obtain ⟨text, rfl⟩ := List.getLast?_eq_some_iff.mp (Option.mem_def.mp last)
    rw [← Bool.not_eq_true]
    intro high
    rw [normalize_eq, squeezed_concat_high high] at some whole
    have kept := JsString.getLast?_trim_of some
      (by rw [List.getLast?_concat]; rintro _ ⟨⟩; exact (surrogate_plain (.inl high)).2.2)
    rw [List.getLast?_concat] at kept
    rw [whole.2 u kept] at high
    cases high

theorem infix_of_cut (whole : WholePairs value) (some : value ≠ []) (cut : Cut value text) :
    value <:+: normalize text := by
  obtain ⟨stretch, ⟨front, back, rfl⟩, _, rfl⟩ := cut
  obtain ⟨first, last⟩ := wholePairs_of_normalize some whole
  obtain ⟨later, begins⟩ := exists_collapse_append false (spaced (JsString.removeFormat front))
  obtain ⟨_, ends⟩ := exists_collapse_append later (spaced (JsString.removeFormat stretch))
  have split := begins (spaced (JsString.removeFormat stretch) ++ spaced (JsString.removeFormat back))
  rw [ends, ← spaced_append, ← spaced_append, ← JsString.removeFormat_append fun u mem v _ => .inl (last u mem),
    ← JsString.removeFormat_append, ← List.append_assoc front] at split
  · refine JsString.infix_trim_of_infix ?_ (fun _ => JsString.head?_trim) fun _ => JsString.getLast?_trim
    refine List.IsInfix.trans ?_ (List.IsInfix.trans (List.prefix_append _ _).isInfix
      (split ▸ (List.suffix_append _ _).isInfix))
    rw [normalize, ← trim_collapse later]
    exact JsString.infix_trim _
  · intro u _ v mem
    have nonempty : stretch ≠ [] := by
      rintro rfl
      exact some rfl
    rw [List.head?_append_of_ne_nil _ nonempty] at mem
    exact .inr (first v mem)

end Stretches

end GhcpConsole.Diagnostics
