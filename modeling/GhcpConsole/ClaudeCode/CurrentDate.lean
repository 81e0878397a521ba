import Mathlib.Data.List.Basic
import GhcpConsole.Lib.JsText
import GhcpConsole.Lib.Text

/-!
# The block of the current date

`stripCurrentDateBlock` looks for its marker anywhere in the text and takes the line behind it, whatever
that line is. In terms of lines: a line that ends with the heading takes the next line with it, so the
heading of a block that stands there is not seen (`stripBlocks_other`).
-/

namespace GhcpConsole.ClaudeCode

/-! ## Scanning -/

def currentDateHeading : List Char := "# currentDate".toList

def currentDateMarker : List Char := currentDateHeading ++ ['\n']

/-- `/^Today's date is \d{4}-\d{2}-\d{2}/`; `none` stands for a digit. -/
def datePattern : List (Option Char) :=
  "Today's date is ".toList.map some
    ++ [none, none, none, none, some '-', none, none, some '-', none, none]

def isDateLine (line : List Char) : Bool :=
  fits datePattern (trim line) || fits (datePattern ++ [some '.']) (trim line)

/-- `indexOf(marker)`: the text before the first occurrence and the text behind it. -/
def splitAtMarker : List Char → Option (List Char × List Char)
  | [] => none
  | c :: text =>
      if currentDateMarker.isPrefixOf (c :: text) then
        some ([], (c :: text).drop currentDateMarker.length)
      else (splitAtMarker text).map fun split => (c :: split.1, split.2)

/-- `indexOf('\n')`: the line and the text behind it. -/
def splitAtNewline (text : List Char) : Option (List Char × List Char) :=
  match text.dropWhile (· ≠ '\n') with
  | [] => none
  | _ :: rest => some (text.takeWhile (· ≠ '\n'), rest)

/-- The loop from the cursor on. -/
def scan : Nat → List Char → List Char
  | 0, text => text
  | fuel + 1, text =>
      match splitAtMarker text with
      | none => text
      | some (before, after) =>
          match splitAtNewline after with
          | none => before ++ currentDateMarker ++ after
          | some (line, rest) =>
              if isDateLine line then before ++ scan fuel (rest.dropWhile (· = '\n'))
              else before ++ currentDateMarker ++ line ++ '\n' :: scan fuel rest

/-- Every round takes a line, so the length of the text is enough. -/
def stripBlocks (text : List Char) : List Char := scan text.length text

def stripCurrentDateBlock (input : String) : String :=
  if (splitAtMarker input.toList).isNone then input else String.ofList (stripBlocks input.toList)

/-! ## Lines -/

section Lines

variable {line dl l : List Char} {text u v : List Char} {rest : List (List Char)}

/-- The line ends with the heading, so the marker is found in it. -/
def endsHeading (line : List Char) : Bool := currentDateHeading.isSuffixOf line

theorem newline_not_mem_heading : '\n' ∉ currentDateHeading := by decide

theorem ne_newline (h : '\n' ∉ line) : ∀ c ∈ line, decide (c ≠ '\n') = true :=
  fun _ hc => decide_eq_true (ne_of_mem_of_not_mem hc h)

theorem takeWhile_line (text : List Char) (h : '\n' ∉ line) : (line ++ '\n' :: text).takeWhile (· ≠ '\n') = line := by
  rw [List.takeWhile_append_of_pos (ne_newline h),
    List.takeWhile_cons_of_neg (by simp), List.append_nil]

theorem splitAtNewline_line (h : '\n' ∉ line) : splitAtNewline (line ++ '\n' :: text) = some (line, text) := by
  have hdrop : (line ++ '\n' :: text).dropWhile (· ≠ '\n') = '\n' :: text := by
    rw [List.dropWhile_append_of_pos (ne_newline h),
      List.dropWhile_cons_of_neg (by simp)]
  rw [splitAtNewline, hdrop, takeWhile_line text h]

theorem splitAtNewline_last (h : '\n' ∉ line) : splitAtNewline line = none := by
  have hdrop : line.dropWhile (· ≠ '\n') = [] :=
    List.dropWhile_eq_nil_iff.mpr (ne_newline h)
  rw [splitAtNewline, hdrop]

/-- The marker stands at the start of a line only if the line is the heading. -/
theorem marker_isPrefix_line (h : '\n' ∉ line) :
    currentDateMarker <+: line ++ '\n' :: text ↔ line = currentDateHeading := by
  constructor
  · rintro ⟨tail, htail⟩
    rw [← takeWhile_line text h, ← htail, currentDateMarker, List.append_assoc,
      List.singleton_append, takeWhile_line _ newline_not_mem_heading]
  · rintro rfl
    exact ⟨text, by rw [currentDateMarker, List.append_assoc, List.singleton_append]⟩

theorem splitAtMarker_heading (h : '\n' ∉ line) :
    splitAtMarker (line ++ currentDateHeading ++ '\n' :: text) = some (line, text) := by
  induction line with
  | nil =>
      have hprefix : currentDateMarker <+: currentDateHeading ++ '\n' :: text :=
        (marker_isPrefix_line newline_not_mem_heading).mpr rfl
      show splitAtMarker (currentDateHeading ++ '\n' :: text) = _
      rw [show currentDateHeading ++ '\n' :: text = currentDateMarker ++ text by simp [currentDateMarker]]
        at hprefix ⊢
      show (if currentDateMarker.isPrefixOf (currentDateMarker ++ text) then _ else _) = _
      rw [if_pos (List.isPrefixOf_iff_prefix.mpr hprefix)]
      rfl
  | cons c line ih =>
      have hnot : ¬ currentDateMarker <+: (c :: (line ++ currentDateHeading)) ++ '\n' :: text := by
        rw [marker_isPrefix_line fun hmem => ?_]
        · intro heq
          have hlength := congrArg List.length heq
          rw [List.length_cons, List.length_append] at hlength
          omega
        · rw [← List.cons_append, List.mem_append] at hmem
          exact hmem.elim h newline_not_mem_heading
      show (if currentDateMarker.isPrefixOf ((c :: (line ++ currentDateHeading)) ++ '\n' :: text) then _
        else _) = _
      rw [if_neg fun hp => hnot (List.isPrefixOf_iff_prefix.mp hp)]
      show (splitAtMarker (line ++ currentDateHeading ++ '\n' :: text)).map _ = _
      rw [ih fun hmem => h (List.mem_cons_of_mem _ hmem)]
      rfl

theorem splitAtMarker_line (h : '\n' ∉ line) (hline : endsHeading line = false) :
    splitAtMarker (line ++ '\n' :: text)
      = (splitAtMarker text).map fun split => (line ++ '\n' :: split.1, split.2) := by
  induction line with
  | nil =>
      show (if currentDateMarker.isPrefixOf ([] ++ '\n' :: text) then _ else _) = _
      rw [if_neg fun hp => ?_]
      · rfl
      · have hnil := (marker_isPrefix_line h).mp (List.isPrefixOf_iff_prefix.mp hp)
        cases hnil
  | cons c line ih =>
      have hnot : c :: line ≠ currentDateHeading := by
        intro heq
        rw [heq] at hline
        cases hline
      have hsuffix : endsHeading line = false := by
        rw [endsHeading, Bool.eq_false_iff] at hline ⊢
        intro hsuffix
        refine hline (List.isSuffixOf_iff_suffix.mpr ?_)
        exact (List.isSuffixOf_iff_suffix.mp hsuffix).trans (List.suffix_cons c line)
      show (if currentDateMarker.isPrefixOf ((c :: line) ++ '\n' :: text) then _ else _) = _
      rw [if_neg fun hp => hnot ((marker_isPrefix_line h).mp (List.isPrefixOf_iff_prefix.mp hp))]
      show (splitAtMarker (line ++ '\n' :: text)).map _ = _
      rw [ih (fun hmem => h (List.mem_cons_of_mem _ hmem)) hsuffix, Option.map_map]
      rfl

theorem splitAtMarker_last (h : '\n' ∉ line) : splitAtMarker line = none := by
  induction line with
  | nil => rfl
  | cons c line ih =>
      show (if currentDateMarker.isPrefixOf (c :: line) then _ else _) = _
      rw [if_neg fun hp => ?_]
      · rw [ih fun hmem => h (List.mem_cons_of_mem _ hmem)]
        rfl
      · exact h ((List.isPrefixOf_iff_prefix.mp hp).subset (by decide))

/-! ## The scan of a line -/

theorem length_splitAtMarker {before after : List Char}
    (h : splitAtMarker text = some (before, after)) : after.length < text.length := by
  induction text generalizing before with
  | nil => cases h
  | cons c text ih =>
      have h : (if currentDateMarker.isPrefixOf (c :: text) then
        some ([], (c :: text).drop currentDateMarker.length)
        else (splitAtMarker text).map fun split => (c :: split.1, split.2)) = some (before, after) := h
      split at h
      · cases h
        rw [List.length_drop, List.length_cons]
        have hlength : currentDateMarker.length = 14 := by decide
        omega
      · obtain ⟨⟨pre, rest⟩, hrest, heq⟩ := Option.map_eq_some_iff.mp h
        cases heq
        exact Nat.lt_trans (ih hrest) (Nat.lt_succ_self _)

theorem length_splitAtNewline (h : splitAtNewline text = some (line, u)) : u.length < text.length := by
  unfold splitAtNewline at h
  split at h
  · cases h
  · rename_i c rest hdrop
    cases h
    have hlength := (List.dropWhile_suffix (l := text) (· ≠ '\n')).length_le
    rw [hdrop, List.length_cons] at hlength
    omega

/-- More rounds than there are characters change nothing. -/
theorem scan_fuel (fuel fuel' : Nat) (h : text.length ≤ fuel) (h' : text.length ≤ fuel') :
    scan fuel text = scan fuel' text := by
  induction fuel generalizing text fuel' with
  | zero =>
      obtain rfl := List.length_eq_zero_iff.mp (Nat.le_zero.mp h)
      cases fuel' <;> rfl
  | succ fuel ih =>
      cases fuel' with
      | zero =>
          obtain rfl := List.length_eq_zero_iff.mp (Nat.le_zero.mp h')
          rfl
      | succ fuel' =>
          rw [scan, scan]
          cases hsplit : splitAtMarker text with
          | none => rfl
          | some split =>
              obtain ⟨before, after⟩ := split
              have hafter := length_splitAtMarker hsplit
              cases hline : splitAtNewline after with
              | none => simp only [hline]
              | some found =>
                  obtain ⟨line, rest⟩ := found
                  have hrest := length_splitAtNewline hline
                  have hdrop := (List.dropWhile_suffix (l := rest) (· = '\n')).length_le
                  simp only [hline]
                  split
                  · rw [ih fuel' (by omega) (by omega)]
                  · rw [ih fuel' (by omega) (by omega)]

theorem stripBlocks_eq (text : List Char) : stripBlocks text =
    match splitAtMarker text with
    | none => text
    | some (before, after) =>
        match splitAtNewline after with
        | none => before ++ currentDateMarker ++ after
        | some (line, rest) =>
            if isDateLine line then before ++ stripBlocks (rest.dropWhile (· = '\n'))
            else before ++ currentDateMarker ++ line ++ '\n' :: stripBlocks rest := by
  unfold stripBlocks
  rw [scan_fuel _ _ (Nat.le_refl text.length) (Nat.le_succ text.length), scan]
  cases hsplit : splitAtMarker text with
  | none => rfl
  | some split =>
      obtain ⟨before, after⟩ := split
      have hafter := length_splitAtMarker hsplit
      cases hline : splitAtNewline after with
      | none => simp only [hline]
      | some found =>
          obtain ⟨line, rest⟩ := found
          have hrest := length_splitAtNewline hline
          have hdrop := (List.dropWhile_suffix (l := rest) (· = '\n')).length_le
          simp only [hline]
          split
          · rw [scan_fuel _ _ (by omega) (Nat.le_refl _)]
          · rw [scan_fuel _ _ (by omega) (Nat.le_refl _)]

theorem stripBlocks_last (h : '\n' ∉ line) : stripBlocks line = line := by
  rw [stripBlocks_eq, splitAtMarker_last h]

/-- A line that does not end with the heading. -/
theorem stripBlocks_line (h : '\n' ∉ line) (hline : endsHeading line = false) :
    stripBlocks (line ++ '\n' :: text) = line ++ '\n' :: stripBlocks text := by
  rw [stripBlocks_eq, splitAtMarker_line h hline, stripBlocks_eq text]
  cases splitAtMarker text with
  | none => rfl
  | some split =>
      obtain ⟨before, after⟩ := split
      simp only [Option.map_some]
      cases splitAtNewline after with
      | none => simp only [List.append_assoc, List.cons_append]
      | some found =>
          simp only
          split <;> simp only [List.append_assoc, List.cons_append]

theorem stripBlocks_truncated (h : '\n' ∉ line) (hdl : '\n' ∉ dl) :
    stripBlocks (line ++ currentDateHeading ++ '\n' :: dl) = line ++ currentDateMarker ++ dl := by
  rw [stripBlocks_eq, splitAtMarker_heading h]
  simp only [splitAtNewline_last hdl]

/-- A block. -/
theorem stripBlocks_block (h : '\n' ∉ line) (hdl : '\n' ∉ dl) (hdate : isDateLine dl = true) :
    stripBlocks (line ++ currentDateHeading ++ '\n' :: (dl ++ '\n' :: text))
      = line ++ stripBlocks (text.dropWhile (· = '\n')) := by
  rw [stripBlocks_eq, splitAtMarker_heading h]
  simp only [splitAtNewline_line hdl, if_pos hdate]

/-- The line behind the heading is no date: it is passed over, whatever it is. -/
theorem stripBlocks_other (h : '\n' ∉ line) (hdl : '\n' ∉ dl) (hdate : isDateLine dl = false) :
    stripBlocks (line ++ currentDateHeading ++ '\n' :: (dl ++ '\n' :: text))
      = line ++ currentDateMarker ++ dl ++ '\n' :: stripBlocks text := by
  rw [stripBlocks_eq, splitAtMarker_heading h]
  simp only [splitAtNewline_line hdl, if_neg (ne_true_of_eq_false hdate)]

theorem stripCurrentDateBlock_eq (input : String) :
    stripCurrentDateBlock input = String.ofList (stripBlocks input.toList) := by
  rw [stripCurrentDateBlock]
  split
  · rename_i hnone
    rw [stripBlocks_eq, Option.isNone_iff_eq_none.mp hnone, String.ofList_toList]
  · rfl

end Lines

end GhcpConsole.ClaudeCode
